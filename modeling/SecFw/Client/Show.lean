import SecFw.Srv.Reply

/-!
This module contains how the command line client receives the messages of an answer, and which bodies
it and the management plane ask for. A header that counts less than itself makes both of them ask for
more than their buffers hold.
-/

namespace SecFw.Client

open Srv

def cliDataLen (msg_header : MessageHead) : UInt32 :=
  -- `data_len` of `process_cli_show_cmd`, an unsigned difference
  let total_len := UInt32.ofNat (msg_header.length.toNat <<< 2)
  total_len - UInt32.ofNat MESSAGE_HEADER_LENGTH

structure ShowRun where
  -- the buffer of the client, what it printed, the headers it received and the bodies it asked for
  rbuf : List UInt8
  printed : List UInt8
  headers : List MessageHead
  asked : List Nat

inductive ShowEnd where
  | returned
  | exited
  | overflow
  deriving DecidableEq, Repr

inductive ShowStep where
  | ended (run : ShowRun) (how : ShowEnd)
  | more (run : ShowRun) (sock : Segmented UInt8)

def nextMessage (run : ShowRun) (sock : Segmented UInt8) (more_flag : UInt8) : ShowStep :=
  let run := { run with rbuf := List.replicate BUFSIZE 0 }
  if more_flag ≠ 0 then .more run sock else .ended run .returned

def receiveMessage (run : ShowRun) (sock : Segmented UInt8) : ShowStep :=
  let (header, sock) := Segmented.read MESSAGE_HEADER_LENGTH sock
  let run := { run with rbuf := memcpyAt run.rbuf 0 header }
  if header.length ≠ MESSAGE_HEADER_LENGTH then
    .ended run .exited
  else
    let msg_header := MessageHead.ofBytes run.rbuf
    let run := { run with headers := run.headers ++ [msg_header] }
    let data_len := cliDataLen msg_header
    if data_len ≠ 0 then
      let run := { run with asked := run.asked ++ [data_len.toNat] }
      let (data, sock) := Segmented.read data_len.toNat sock
      if BUFSIZE < MESSAGE_HEADER_LENGTH + data.length then
        .ended run .overflow
      else
        let run := { run with rbuf := memcpyAt run.rbuf MESSAGE_HEADER_LENGTH data }
        if data.length ≠ data_len.toNat then
          .ended run .exited
        else
          let text := (run.rbuf.drop MESSAGE_HEADER_LENGTH).takeWhile (· ≠ 0)
          nextMessage { run with printed := run.printed ++ text } sock msg_header.more_flag
    else
      nextMessage run sock msg_header.more_flag

structure Receiver where
  size : Nat
  asks : MessageHead → Option Nat

def server : Receiver where
  size := BUF_R_SIZE
  asks msg_header :=
    let data_len : Int := (msg_header.length.toNat <<< 2 : Nat) - (MESSAGE_HEADER_LENGTH : Int)
    if data_len ≠ 0 then some (UInt64.ofInt data_len).toNat else none

def cli : Receiver where
  size := BUFSIZE
  asks msg_header :=
    let data_len := cliDataLen msg_header
    if data_len ≠ 0 then some data_len.toNat else none

/-- The body fits behind the header, and a header that counts less than itself has none. -/
structure Receiver.Harmless (receiver : Receiver) (msg_header : MessageHead) : Prop where
  bounded : ∀ n, receiver.asks msg_header = some n → n ≤ receiver.size - MESSAGE_HEADER_LENGTH
  rejected : msg_header.length.toNat <<< 2 < MESSAGE_HEADER_LENGTH → receiver.asks msg_header = none

/-- The bodies that were asked for are those of the headers. -/
def ShowRun.Logged (run : ShowRun) : Prop := run.asked = run.headers.filterMap cli.asks

def ShowStep.run : ShowStep → ShowRun
  | ended run _ => run
  | more run _ => run

section Loop

variable {run run' : ShowRun} {sock sock' : Segmented UInt8} {more_flag : UInt8}

theorem asked_nextMessage : (nextMessage run sock more_flag).run.asked = run.asked := by
  unfold nextMessage
  dsimp only
  split <;> rfl

theorem headers_nextMessage : (nextMessage run sock more_flag).run.headers = run.headers := by
  unfold nextMessage
  dsimp only
  split <;> rfl

theorem sock_of_nextMessage (h : nextMessage run sock more_flag = .more run' sock') : sock' = sock := by
  unfold nextMessage at h
  dsimp only at h
  split at h
  . cases h
    rfl
  . contradiction

theorem how_of_nextMessage {how : ShowEnd} (h : nextMessage run sock more_flag = .ended run' how)
    : how = .returned := by
  unfold nextMessage at h
  dsimp only at h
  split at h
  . contradiction
  . cases h
    rfl

theorem length_lt_of_more (h : receiveMessage run sock = .more run' sock')
    : sock'.flatten.length < sock.flatten.length := by
  have hheader := sock.length_read MESSAGE_HEADER_LENGTH
  unfold receiveMessage at h
  dsimp only at h
  split at h
  . contradiction
  next hlen =>
  rw [ne_eq, not_not] at hlen
  have hpos : 0 < (sock.read MESSAGE_HEADER_LENGTH).1.length := by
    rw [hlen]
    decide
  split at h
  . split at h
    . contradiction
    split at h
    . contradiction
    . have hdata := (sock.read MESSAGE_HEADER_LENGTH).2.length_read
        (cliDataLen (MessageHead.ofBytes (memcpyAt run.rbuf 0
          (sock.read MESSAGE_HEADER_LENGTH).1))).toNat
      rw [sock_of_nextMessage h]
      omega
  . rw [sock_of_nextMessage h]
    omega

theorem logged_receiveMessage (sock : Segmented UInt8) (h : run.Logged)
    : (receiveMessage run sock).run.Logged := by
  unfold ShowRun.Logged at h
  unfold receiveMessage
  dsimp only
  split
  . exact h
  split
  . next hdata =>
    have hlog : run.asked ++ [(cliDataLen (MessageHead.ofBytes (memcpyAt run.rbuf 0
        (sock.read MESSAGE_HEADER_LENGTH).1))).toNat]
          = (run.headers ++ [MessageHead.ofBytes (memcpyAt run.rbuf 0
              (sock.read MESSAGE_HEADER_LENGTH).1)]).filterMap cli.asks := by
      rw [List.filterMap_append, ← h]
      simp only [cli, List.filterMap_cons, List.filterMap_nil, if_pos hdata]
    split
    . exact hlog
    split
    . exact hlog
    . rw [ShowRun.Logged, asked_nextMessage, headers_nextMessage]
      exact hlog
  . next hdata =>
    rw [ShowRun.Logged, asked_nextMessage, headers_nextMessage, List.filterMap_append, ← h]
    simp only [cli, List.filterMap_cons, List.filterMap_nil, if_neg hdata, List.append_nil]

end Loop

def processCliShowCmd (run : ShowRun) (sock : Segmented UInt8) : ShowRun × ShowEnd :=
  -- `process_cli_show_cmd` after the request is sent
  match hstep : receiveMessage run sock with
  | .ended run how => (run, how)
  | .more run sock' =>
    have := length_lt_of_more hstep
    processCliShowCmd run sock'
termination_by sock.flatten.length
decreasing_by assumption

theorem processCliShowCmd_ended {run run' : ShowRun} {sock : Segmented UInt8} {how : ShowEnd}
    (hstep : receiveMessage run sock = .ended run' how) : processCliShowCmd run sock = (run', how) := by
  unfold processCliShowCmd
  split
  . next hstep' =>
    rw [hstep] at hstep'
    cases hstep'
    rfl
  . next hstep' =>
    rw [hstep] at hstep'
    contradiction

theorem processCliShowCmd_more {run run' : ShowRun} {sock sock' : Segmented UInt8}
    (hstep : receiveMessage run sock = .more run' sock')
    : processCliShowCmd run sock = processCliShowCmd run' sock' := by
  rw [processCliShowCmd]
  split
  . next hstep' =>
    rw [hstep] at hstep'
    contradiction
  . next hstep' =>
    rw [hstep] at hstep'
    cases hstep'
    rfl

theorem logged_processCliShowCmd (run : ShowRun) (sock : Segmented UInt8) (h : run.Logged)
    : (processCliShowCmd run sock).1.Logged := by
  induction run, sock using processCliShowCmd.induct with
  | case1 run sock run' how hstep =>
    have hlogged := logged_receiveMessage sock h
    rw [hstep] at hlogged
    rw [processCliShowCmd_ended hstep]
    exact hlogged
  | case2 run sock run' sock' hstep _ ih =>
    have hlogged := logged_receiveMessage sock h
    rw [hstep] at hlogged
    rw [processCliShowCmd_more hstep]
    exact ih hlogged

section Harmless

variable {msg_header : MessageHead}

theorem toNat_cliDataLen (msg_header : MessageHead)
    : (cliDataLen msg_header).toNat = (2 ^ 32 - 12 + msg_header.length.toNat * 4) % 2 ^ 32 := by
  have hbyte := msg_header.length.toNat_lt
  unfold cliDataLen
  dsimp only
  rw [UInt32.toNat_sub, UInt32.toNat_ofNat', UInt32.toNat_ofNat', Nat.shiftLeft_eq]
  simp only [MESSAGE_HEADER_LENGTH]
  omega

theorem cli_asks_eq (msg_header : MessageHead)
    : cli.asks msg_header
        =
      if msg_header.length.toNat = 3 then none
      else if 3 < msg_header.length.toNat then some (msg_header.length.toNat * 4 - 12)
      else some (2 ^ 32 - 12 + msg_header.length.toNat * 4) := by
  have hbyte := msg_header.length.toNat_lt
  have hnat := toNat_cliDataLen msg_header
  have hzero : cliDataLen msg_header = 0 ↔ msg_header.length.toNat = 3 := by
    rw [← UInt32.toNat_inj, hnat, UInt32.toNat_zero]
    omega
  unfold cli
  dsimp only
  simp only [ne_eq, hzero, hnat, ite_not]
  split
  . rfl
  next hne =>
  split
  . congr 1
    omega
  . congr 1
    omega

theorem server_asks_eq
    : server.asks msg_header
        =
      if msg_header.length.toNat = 3 then none
      else if 3 < msg_header.length.toNat then some (msg_header.length.toNat * 4 - 12)
      else some (2 ^ 64 - 12 + msg_header.length.toNat * 4) := by
  have hbyte := msg_header.length.toNat_lt
  have hzero : ((msg_header.length.toNat <<< 2 : Nat) : Int) - (MESSAGE_HEADER_LENGTH : Int) = 0
      ↔ msg_header.length.toNat = 3 := by
    simp only [Nat.shiftLeft_eq, MESSAGE_HEADER_LENGTH]
    omega
  unfold server
  simp only [ne_eq, hzero, ite_not]
  split
  . rfl
  next hne =>
  rw [UInt64.ofInt, UInt64.toNat_ofNat', Nat.shiftLeft_eq]
  simp only [MESSAGE_HEADER_LENGTH]
  split
  . congr 1
    omega
  . congr 1
    omega

theorem harmless_iff {receiver : Receiver} {huge : Nat} (hsize : 1020 ≤ receiver.size)
    (hhuge : receiver.size + 12 ≤ huge)
    (hasks : receiver.asks msg_header
      = if msg_header.length.toNat = 3 then none
        else if 3 < msg_header.length.toNat then some (msg_header.length.toNat * 4 - 12)
        else some (huge - 12 + msg_header.length.toNat * 4))
    : receiver.Harmless msg_header ↔ 3 ≤ msg_header.length.toNat := by
  have hbyte := msg_header.length.toNat_lt
  constructor
  . intro h
    by_contra hlt
    have hbounded := h.bounded
    rw [hasks, if_neg (by omega), if_neg (by omega)] at hbounded
    have hle := hbounded _ rfl
    simp only [MESSAGE_HEADER_LENGTH] at hle
    omega
  . intro hle
    constructor
    . intro n hn
      rw [hasks] at hn
      simp only [MESSAGE_HEADER_LENGTH]
      split at hn
      . contradiction
      split at hn
      . rw [Option.some.injEq] at hn
        omega
      . omega
    . intro hlt
      rw [Nat.shiftLeft_eq] at hlt
      simp only [MESSAGE_HEADER_LENGTH] at hlt
      omega

theorem server_harmless_iff : server.Harmless msg_header ↔ 3 ≤ msg_header.length.toNat := by
  apply harmless_iff _ _ server_asks_eq
  . decide
  . decide

theorem cli_harmless_iff : cli.Harmless msg_header ↔ 3 ≤ msg_header.length.toNat := by
  apply harmless_iff _ _ (cli_asks_eq _)
  . decide
  . decide

end Harmless

section Safe

variable {header : List UInt8} {run : ShowRun} {sock : Segmented UInt8}

theorem write_eq_none (rbuf : Buffer) {pos : Nat} {src : List UInt8}
    : rbuf.write pos src = none ↔ BUF_R_SIZE < pos + src.length := by
  unfold Buffer.write
  split
  . next hle => simpa using hle
  . next hle => simpa using hle

theorem recvDataBlock_eq_none {rbuf : Buffer}
    : recvDataBlock sock rbuf = none
        ↔ ∃ want, server.asks (MessageHead.ofBytes rbuf.bytes) = some want
          ∧ BUF_R_SIZE < MESSAGE_HEADER_LENGTH + (sock.read want).1.length := by
  unfold recvDataBlock server dataLen
  dsimp only
  split
  . next hlen =>
    simp only [Option.bind_eq_bind, Option.bind_eq_none_iff, Option.some.injEq, exists_eq_left']
    rw [← write_eq_none rbuf]
    constructor
    . intro hnone
      cases hwrite : rbuf.write MESSAGE_HEADER_LENGTH _ with
      | none => rfl
      | some rbuf' =>
        have := hnone rbuf' hwrite
        split at this <;> contradiction
    . intro hnone rbuf' hwrite
      rw [hnone] at hwrite
      contradiction
  . simp

/-- Whatever comes behind the header, it stays inside of the buffer. -/
def ServerSafe (header : List UInt8) : Prop :=
  ∀ sock rbuf, (Segmented.read MESSAGE_HEADER_LENGTH sock).1 = header
    → recvTcpClientPacket sock rbuf ≠ none

theorem recvTcpClientPacket_eq_none {rbuf : Buffer} (hlen : header.length = MESSAGE_HEADER_LENGTH)
    (hread : (sock.read MESSAGE_HEADER_LENGTH).1 = header)
    : recvTcpClientPacket sock rbuf = none
        ↔ ∃ want, server.asks (MessageHead.ofBytes header) = some want
          ∧ BUF_R_SIZE < MESSAGE_HEADER_LENGTH
            + ((sock.read MESSAGE_HEADER_LENGTH).2.read want).1.length := by
  have hroom : 0 + header.length ≤ BUF_R_SIZE := by
    rw [hlen]
    decide
  rcases rbuf.write_eq_some hroom with ⟨rbuf', hwrite, -⟩
  rw [← ofBytes_write hlen hwrite, ← recvDataBlock_eq_none]
  simp only [recvTcpClientPacket, hread, hwrite, Option.bind_eq_bind, Option.bind_some, hlen, ne_eq,
    not_true_eq_false, ↓reduceIte]

theorem serverSafe_iff (hlen : header.length = MESSAGE_HEADER_LENGTH)
    : ServerSafe header ↔ 3 ≤ (MessageHead.ofBytes header).length.toNat := by
  constructor
  . intro hsafe
    by_contra hlt
    -- a segment of one byte too many is read as a whole
    apply hsafe [header, List.replicate (BUF_R_SIZE - MESSAGE_HEADER_LENGTH + 1) 0]
      ⟨List.replicate BUF_R_SIZE 0, List.length_replicate⟩
    . simp [Segmented.read, hlen]
    . rw [recvTcpClientPacket_eq_none hlen (by simp [Segmented.read, hlen]), server_asks_eq,
        if_neg (by omega), if_neg (by omega)]
      refine ⟨_, rfl, ?_⟩
      simp only [Segmented.read, hlen, le_refl, ↓reduceIte, List.length_replicate]
      split
      . rw [List.length_replicate]
        decide
      . next hle =>
        simp only [BUF_R_SIZE, MESSAGE_HEADER_LENGTH] at hle
        omega
  . intro hle sock rbuf hread hnone
    rw [recvTcpClientPacket_eq_none hlen hread] at hnone
    rcases hnone with ⟨want, hasks, hlt⟩
    have hbounded := (server_harmless_iff.mpr hle).bounded want hasks
    have hdata := (sock.read MESSAGE_HEADER_LENGTH).2.length_read_le want
    simp only [server, BUF_R_SIZE, MESSAGE_HEADER_LENGTH] at hbounded hdata hlt
    omega

theorem exists_last_turn (run : ShowRun) (sock : Segmented UInt8)
    : ∃ run' sock', receiveMessage run' sock'
        = .ended (processCliShowCmd run sock).1 (processCliShowCmd run sock).2 := by
  induction run, sock using processCliShowCmd.induct with
  | case1 run sock run' how hstep =>
    refine ⟨run, sock, ?_⟩
    rw [processCliShowCmd_ended hstep]
    exact hstep
  | case2 run sock run' sock' hstep _ ih =>
    rcases ih with ⟨run'', sock'', hlast⟩
    refine ⟨run'', sock'', ?_⟩
    rw [processCliShowCmd_more hstep]
    exact hlast

theorem exists_asked_of_overflow {run' : ShowRun}
    (h : receiveMessage run sock = .ended run' .overflow)
    : ∃ n ∈ run'.asked, cli.size - MESSAGE_HEADER_LENGTH < n := by
  unfold receiveMessage at h
  dsimp only at h
  split at h
  . cases h
  split at h
  . split at h
    . next hlt =>
      have hdata := (sock.read MESSAGE_HEADER_LENGTH).2.length_read_le
        (cliDataLen (MessageHead.ofBytes (memcpyAt run.rbuf 0
          (sock.read MESSAGE_HEADER_LENGTH).1))).toNat
      cases h
      refine ⟨_, List.mem_append_right _ (List.mem_singleton_self _), ?_⟩
      simp only [cli, BUFSIZE, MESSAGE_HEADER_LENGTH] at hlt hdata ⊢
      omega
    split at h
    . cases h
    . exact absurd (how_of_nextMessage h) (by decide)
  . exact absurd (how_of_nextMessage h) (by decide)

/-- Every body that a run asks for fits, and then it stays inside of the buffer. -/
structure RunSafe (run : ShowRun) (how : ShowEnd) : Prop where
  bounded : ∀ n ∈ run.asked, n ≤ cli.size - MESSAGE_HEADER_LENGTH
  inside : how ≠ .overflow

theorem runSafe_iff (run : ShowRun) (sock : Segmented UInt8) (h : run.Logged)
    : RunSafe (processCliShowCmd run sock).1 (processCliShowCmd run sock).2
        ↔ ∀ msg_header ∈ (processCliShowCmd run sock).1.headers, 3 ≤ msg_header.length.toNat := by
  have hlogged := logged_processCliShowCmd run sock h
  unfold ShowRun.Logged at hlogged
  constructor
  . intro hsafe msg_header hmem
    rw [← cli_harmless_iff]
    by_contra hharm
    have hlt := mt cli_harmless_iff.mpr hharm
    have hasks := cli_asks_eq msg_header
    rw [if_neg (by omega), if_neg (by omega)] at hasks
    have hasked : 2 ^ 32 - 12 + msg_header.length.toNat * 4 ∈ (processCliShowCmd run sock).1.asked := by
      rw [hlogged, List.mem_filterMap]
      exact ⟨msg_header, hmem, hasks⟩
    have := hsafe.bounded _ hasked
    simp only [cli, BUFSIZE, MESSAGE_HEADER_LENGTH] at this
    omega
  . intro hall
    have hbounded : ∀ n ∈ (processCliShowCmd run sock).1.asked,
        n ≤ cli.size - MESSAGE_HEADER_LENGTH := by
      intro n hn
      rw [hlogged, List.mem_filterMap] at hn
      rcases hn with ⟨msg_header, hmem, hasks⟩
      exact (cli_harmless_iff.mpr (hall msg_header hmem)).bounded n hasks
    constructor
    . exact hbounded
    . intro hoverflow
      rcases exists_last_turn run sock with ⟨run', sock', hlast⟩
      rw [hoverflow] at hlast
      rcases exists_asked_of_overflow hlast with ⟨n, hn, hlt⟩
      exact absurd (hbounded n hn) (Nat.not_le.mpr hlt)

/--
Both receivers handle a header without harm exactly when it counts at least itself. So does the client
over all messages of an answer.
-/
theorem malformed_length_harmless_iff (header : List UInt8)
    (hlen : header.length = MESSAGE_HEADER_LENGTH)
    : (server.Harmless (MessageHead.ofBytes header) ∧ ServerSafe header
          ↔ 3 ≤ (MessageHead.ofBytes header).length.toNat)
      ∧ (cli.Harmless (MessageHead.ofBytes header)
          ↔ 3 ≤ (MessageHead.ofBytes header).length.toNat)
      ∧ ∀ run sock, run.Logged
        → (RunSafe (processCliShowCmd run sock).1 (processCliShowCmd run sock).2
            ↔ ∀ msg_header ∈ (processCliShowCmd run sock).1.headers,
              3 ≤ msg_header.length.toNat) := by
  refine ⟨?_, cli_harmless_iff, runSafe_iff⟩
  rw [server_harmless_iff, serverSafe_iff hlen, and_self_iff]

def emptyHeader : List UInt8 := List.replicate MESSAGE_HEADER_LENGTH 0

theorem malformed_length_harmless_emptyHeader
    : (server.Harmless (MessageHead.ofBytes emptyHeader) ∧ ServerSafe emptyHeader
          ↔ 3 ≤ (MessageHead.ofBytes emptyHeader).length.toNat)
      ∧ (cli.Harmless (MessageHead.ofBytes emptyHeader)
          ↔ 3 ≤ (MessageHead.ofBytes emptyHeader).length.toNat)
      ∧ (RunSafe (processCliShowCmd ⟨List.replicate BUFSIZE 0, [], [], []⟩ [emptyHeader]).1
            (processCliShowCmd ⟨List.replicate BUFSIZE 0, [], [], []⟩ [emptyHeader]).2
          ↔ ∀ msg_header
              ∈ (processCliShowCmd ⟨List.replicate BUFSIZE 0, [], [], []⟩ [emptyHeader]).1.headers,
            3 ≤ msg_header.length.toNat) := by
  have h := malformed_length_harmless_iff emptyHeader (by decide)
  exact ⟨h.1, h.2.1, h.2.2 _ _ rfl⟩

theorem emptyHeader_asks
    : emptyHeader.length = MESSAGE_HEADER_LENGTH
      ∧ (MessageHead.ofBytes emptyHeader).length = 0
      ∧ server.asks (MessageHead.ofBytes emptyHeader) = some (2 ^ 64 - 12)
      ∧ cli.asks (MessageHead.ofBytes emptyHeader) = some (2 ^ 32 - 12)
      ∧ ¬ server.Harmless (MessageHead.ofBytes emptyHeader)
      ∧ ¬ cli.Harmless (MessageHead.ofBytes emptyHeader)
      ∧ ¬ ServerSafe emptyHeader := by
  have hlen : emptyHeader.length = MESSAGE_HEADER_LENGTH := by decide
  have hzero : (MessageHead.ofBytes emptyHeader).length = 0 := rfl
  refine ⟨hlen, hzero, ?_, ?_, ?_, ?_, ?_⟩
  . rw [server_asks_eq, hzero]
    rfl
  . rw [cli_asks_eq, hzero]
    rfl
  . rw [server_harmless_iff, hzero]
    decide
  . rw [cli_harmless_iff, hzero]
    decide
  . rw [serverSafe_iff hlen, hzero]
    decide

end Safe

end SecFw.Client
