import TarsCpp.NetworkBuffer.QueueRefinement
import TarsCpp.TransitionRun

/-!
# The byte stream of a TCP connection

`TC_EpollServer::Connection` and the part of `TC_Transceiver` behind it.  The
contexts in `_messages` are named by their buffers, and a buffer may be in
`_messages` and in `_sendBuffer` at the same time.

The socket takes the messages in the order of the calls of `send`.  What it has
not taken is in the send buffer and in the messages behind it; a message that
is in both is held once.
-/

namespace TarsCpp.Epoll

open NetworkBuffer

/-- The answers of `::send` in one event: how many bytes it takes, or `EAGAIN`.
After the last of them it answers `EAGAIN`. -/
abbrev Socket := List (Option Nat)

/-- A call takes no more than it is offered, as a `uint32_t`, and no more than
the kernel transfers at once. -/
def accepted (offered count : Nat) : Nat :=
  min count (min (offered % 2 ^ 32) 0x7ffff000)

/-- How much of `left` bytes the loop of `sendRequest` gets rid of. -/
def takes : Nat → Socket → Nat
  | _, [] => 0
  | _, none :: _ => 0
  | left, some count :: socket =>
      let iRet := accepted left count
      if iRet = left then iRet else iRet + takes (left - iRet) socket

/-- How much of `left` bytes the loop of `doRequest` gets rid of. -/
def flushes : Nat → Socket → Nat
  | _, [] => 0
  | _, none :: _ => 0
  | left, some count :: socket =>
      let iRet := accepted left count
      if iRet = 0 ∨ iRet = left then
        iRet
      else
        iRet + flushes (left - iRet) socket

inductive ReturnStatus
  | eRetError
  | eRetOk
  | eRetFull
  | eRetNotSend
deriving DecidableEq, Repr

structure TcpConnection where
  /-- `_trans->_sendBuffer`, and the heap of all buffers. -/
  sendBuffer : NetWorkBuffer := {}
  messages : List BufferId := []
  /-- The counters are of type `size_t`. -/
  messageSize : Int := 0
  iSendBufferSize : Int := 0
  /-- What the socket has taken so far. -/
  taken : List UInt8 := []

namespace TcpConnection

/-- `empty()` of the send buffer. -/
def drained (conn : TcpConnection) : Bool := conn.sendBuffer.length = 0

/-- One `send` that does not answer `EAGAIN`, and `moveHeader`. -/
def transmit (count : Nat) (conn : TcpConnection) :
    Except Failure (Nat × TcpConnection) :=
  match conn.sendBuffer.bufferList with
  | [] => .error .invalidAccess
  | id :: _ => do
      let data ← (conn.sendBuffer.buffers id).content
      let iRet := accepted data.length count
      let (_, net) ← conn.sendBuffer.moveHeader iRet
      pure (iRet, { conn with
        sendBuffer := net, taken := conn.taken ++ data.take iRet })

/-- The loop of `sendRequest`. -/
def sendLoop : Socket → TcpConnection →
    Except Failure (ReturnStatus × Socket × TcpConnection)
  | [], conn => .ok (.eRetFull, [], conn)
  | none :: socket, conn => .ok (.eRetFull, socket, conn)
  | some count :: socket, conn => do
      let (_, conn) ← conn.transmit count
      if conn.drained then
        pure (.eRetOk, socket, conn)
      else
        sendLoop socket conn

/-- `sendable`: the connection is established, through its proxy if it has one,
and authenticated if that is asked for. -/
def sendRequest (sendable : Bool) (buff : BufferId) (socket : Socket)
    (conn : TcpConnection) :
    Except Failure (ReturnStatus × Socket × TcpConnection) :=
  if (conn.sendBuffer.buffers buff).empty then
    .ok (.eRetOk, socket, conn)
  else if !conn.drained then
    .ok (.eRetNotSend, socket, conn)
  else if !sendable then
    .ok (.eRetNotSend, socket, conn)
  else
    sendLoop socket
      { conn with sendBuffer := conn.sendBuffer.addSharedBuffer buff }

/-- The loop over `_messages`. -/
def onRequestCallback (sendable : Bool) : List BufferId → Socket →
    TcpConnection → Except Failure TcpConnection
  | [], _, conn => .ok conn
  | buff :: messages, socket, conn => do
      let (iRet, socket, conn) ← conn.sendRequest sendable buff socket
      if iRet = .eRetError ∨ iRet = .eRetNotSend then
        pure conn
      else
        let conn := { conn with
          messageSize :=
            conn.messageSize - (conn.sendBuffer.buffers buff).length
          messages := messages }
        if iRet = .eRetFull then
          pure conn
        else
          onRequestCallback sendable messages socket conn

/-- The loop of `doRequest`, as long as the send buffer is not empty. -/
def flush : Socket → TcpConnection → Except Failure (Socket × TcpConnection)
  | [], conn => .ok ([], conn)
  | none :: socket, conn =>
      if conn.drained then .ok (none :: socket, conn) else .ok (socket, conn)
  | some count :: socket, conn =>
      if conn.drained then
        .ok (some count :: socket, conn)
      else do
        let (iRet, conn) ← conn.transmit count
        if iRet = 0 then pure (socket, conn) else flush socket conn

def doRequest (sendable : Bool) (socket : Socket) (conn : TcpConnection) :
    Except Failure TcpConnection := do
  let (socket, conn) ← flush socket conn
  if conn.drained then
    onRequestCallback sendable conn.messages socket conn
  else
    pure conn

/-- `send` of a context whose buffer is `buff`. -/
def send (sendable : Bool) (buff : BufferId) (socket : Socket)
    (conn : TcpConnection) : Except Failure TcpConnection := do
  let conn := { conn with iSendBufferSize := conn.iSendBufferSize + 1 }
  let conn ←
    if conn.messages = [] then do
      let (_, _, conn) ← conn.sendRequest sendable buff socket
      pure conn
    else
      pure conn
  if (conn.sendBuffer.buffers buff).empty then
    pure conn
  else
    pure { conn with
      messageSize := conn.messageSize + (conn.sendBuffer.buffers buff).length
      messages := conn.messages ++ [buff] }

/-- A buffer that somebody has filled. -/
def adopt (buff : Buffer) (conn : TcpConnection) : TcpConnection :=
  { conn with sendBuffer := conn.sendBuffer.adopt conn.sendBuffer.fresh buff }

/-- `send` of a context with a buffer of its own. -/
def sendContext (sendable : Bool) (buff : Buffer) (socket : Socket)
    (conn : TcpConnection) : Except Failure TcpConnection :=
  send sendable conn.sendBuffer.fresh socket (conn.adopt buff)

end TcpConnection

open TransitionRun

/-- The bytes of a buffer; nothing if it is not a valid one. -/
def bytes (buff : Buffer) : List UInt8 :=
  match buff.content with
  | .ok data => data
  | .error _ => []

theorem bytes_eq {buff : Buffer} {data : List UInt8}
    (represents : Represents buff data) : bytes buff = data := by
  rw [bytes, represents.content_eq]

theorem empty_iff {buff : Buffer} {data : List UInt8}
    (represents : Represents buff data) : buff.empty = true ↔ data = [] := by
  have length := represents.length_eq
  have order := represents.bounds.1
  simp only [Buffer.length] at length
  rw [← List.length_eq_zero_iff, ← length, Buffer.empty, decide_eq_true_iff]
  omega

namespace TcpConnection

def bytesAt (conn : TcpConnection) (buff : BufferId) : List UInt8 :=
  bytes (conn.sendBuffer.buffers buff)

/-- A buffer with something in it. -/
def Live (conn : TcpConnection) (buff : BufferId) : Prop :=
  Holds (conn.sendBuffer.buffers buff) (conn.bytesAt buff) ∧
    conn.bytesAt buff ≠ []

/-- The send buffer consists of one chunk. -/
structure Sending (conn : TcpConnection) (buff : BufferId) : Prop where
  list : conn.sendBuffer.bufferList = [buff]
  live : conn.Live buff
  length : conn.sendBuffer.length = (conn.bytesAt buff).length

/-- From `conn` to `next` the socket takes `count` bytes of the only chunk. -/
structure Transmitted (buff : BufferId) (count : Nat)
    (conn next : TcpConnection) : Prop where
  messages : next.messages = conn.messages
  messageSize : next.messageSize = conn.messageSize
  iSendBufferSize : next.iSendBufferSize = conn.iSendBufferSize
  fresh : next.sendBuffer.fresh = conn.sendBuffer.fresh
  others : ∀ other, other ≠ buff →
    next.sendBuffer.buffers other = conn.sendBuffer.buffers other
  within : count ≤ (conn.bytesAt buff).length
  taken : next.taken = conn.taken ++ (conn.bytesAt buff).take count
  holds : Holds (next.sendBuffer.buffers buff)
    ((conn.bytesAt buff).drop count)
  length : next.sendBuffer.length = (conn.bytesAt buff).length - count
  list : next.sendBuffer.bufferList =
    if count = (conn.bytesAt buff).length then [] else [buff]

section Transmitted

variable {conn middle next : TcpConnection} {buff : BufferId} {count : Nat}

theorem accepted_le (offered count : Nat) :
    accepted offered count ≤ offered := by
  have small := Nat.mod_le offered (2 ^ 32)
  unfold accepted
  omega

theorem accepted_lt (offered count : Nat) :
    accepted offered count < 2 ^ 32 := by
  unfold accepted
  omega

theorem Sending.live_length (sending : conn.Sending buff) :
    0 < (conn.bytesAt buff).length :=
  List.length_pos_iff.mpr sending.live.2

theorem Sending.drained (sending : conn.Sending buff) :
    conn.drained = false := by
  have positive := sending.live_length
  rw [← sending.length] at positive
  simpa [TcpConnection.drained] using Nat.ne_of_gt positive

theorem Transmitted.refl (sending : conn.Sending buff) :
    Transmitted buff 0 conn conn where
  messages := rfl
  messageSize := rfl
  iSendBufferSize := rfl
  fresh := rfl
  others := fun _ _ => rfl
  within := Nat.zero_le _
  taken := (List.append_nil _).symm
  holds := sending.live.1
  length := sending.length
  list := by
    rw [if_neg (Nat.ne_of_lt sending.live_length)]
    exact sending.list

theorem Transmitted.bytesAt (sent : Transmitted buff count conn next) :
    next.bytesAt buff = (conn.bytesAt buff).drop count :=
  bytes_eq sent.holds.represents

theorem Transmitted.bytesAt_other (sent : Transmitted buff count conn next)
    {other : BufferId} (different : other ≠ buff) :
    next.bytesAt other = conn.bytesAt other := by
  rw [TcpConnection.bytesAt, sent.others other different,
    TcpConnection.bytesAt]

theorem Transmitted.drained (sent : Transmitted buff count conn next) :
    next.drained = decide (count = (conn.bytesAt buff).length) := by
  have within := sent.within
  rw [TcpConnection.drained, sent.length]
  apply decide_eq_decide.mpr
  omega

/-- As long as something is left, the chunk stays where it is. -/
theorem Transmitted.sending (sent : Transmitted buff count conn next)
    (left : count ≠ (conn.bytesAt buff).length) : next.Sending buff where
  list := by rw [sent.list, if_neg left]
  live := by
    rw [Live, sent.bytesAt]
    refine ⟨sent.holds, ?_⟩
    rw [Ne, List.drop_eq_nil_iff]
    have within := sent.within
    omega
  length := by rw [sent.length, sent.bytesAt, List.length_drop]

theorem Transmitted.trans {more : Nat}
    (sent : Transmitted buff count conn middle)
    (later : Transmitted buff more middle next) :
    Transmitted buff (count + more) conn next where
  messages := later.messages.trans sent.messages
  messageSize := later.messageSize.trans sent.messageSize
  iSendBufferSize := later.iSendBufferSize.trans sent.iSendBufferSize
  fresh := later.fresh.trans sent.fresh
  others := fun other different =>
    (later.others other different).trans (sent.others other different)
  within := by
    have first := sent.within
    have second := later.within
    rw [sent.bytesAt, List.length_drop] at second
    omega
  taken := by
    rw [later.taken, sent.taken, sent.bytesAt, List.append_assoc,
      List.take_add]
  holds := by
    rw [← List.drop_drop, ← sent.bytesAt]
    exact later.holds
  length := by
    rw [later.length, sent.bytesAt, List.length_drop]
    omega
  list := by
    have within := sent.within
    rw [later.list, sent.bytesAt, List.length_drop]
    apply if_congr _ rfl rfl
    omega

/-- One call of `send`. -/
theorem transmit_transmitted (sending : conn.Sending buff) (count : Nat) :
    ∃ next, conn.transmit count =
        .ok (accepted (conn.bytesAt buff).length count, next) ∧
      Transmitted buff (accepted (conn.bytesAt buff).length count)
        conn next := by
  have holds := sending.live.1
  have content := holds.represents.content_eq
  generalize size : accepted (conn.bytesAt buff).length count = iRet
  have within : iRet ≤ (conn.bytesAt buff).length := size ▸ accepted_le _ _
  have small : iRet < 2 ^ 32 := size ▸ accepted_lt _ _
  have whole : (UInt32.ofNat iRet).toNat = iRet :=
    UInt32.toNat_ofNat_of_lt' small
  obtain ⟨moved, run, rest⟩ := addReadIdx_holds holds (whole.trans_le within)
  rw [whole] at rest
  have enough : ¬ conn.sendBuffer.length < iRet := by
    rw [sending.length]
    exact Nat.not_lt.mpr within
  have length := holds.length_eq
  simp only [transmit, sending.list, content, ok_bind, size,
    NetWorkBuffer.moveHeader, NetWorkBuffer.moveHeaderFrom, if_neg enough]
  by_cases nothing : iRet = 0
  · subst nothing
    exact ⟨_, rfl, by
      simpa [List.take_zero] using Transmitted.refl sending⟩
  rw [if_neg nothing, length]
  have others (other : BufferId) (different : other ≠ buff) :
      (conn.sendBuffer.put buff moved).buffers other =
        conn.sendBuffer.buffers other := by
    simp [NetWorkBuffer.put, different]
  have filled : Holds ((conn.sendBuffer.put buff moved).buffers buff)
      ((conn.bytesAt buff).drop iRet) := by
    simpa [NetWorkBuffer.put] using rest
  by_cases partly : iRet < (conn.bytesAt buff).length
  · rw [if_pos partly, run, ok_bind, pure_ok, ok_bind, pure_ok]
    refine ⟨_, rfl, ?_⟩
    exact {
      messages := rfl
      messageSize := rfl
      iSendBufferSize := rfl
      fresh := rfl
      others := others
      within := within
      taken := rfl
      holds := filled
      length := congrArg (· - iRet) sending.length
      list := by
        rw [if_neg (Nat.ne_of_lt partly)]
        exact sending.list }
  · obtain rfl : iRet = (conn.bytesAt buff).length := by omega
    rw [if_neg partly, if_pos rfl, run, ok_bind, pure_ok, ok_bind, pure_ok]
    refine ⟨_, rfl, ?_⟩
    exact {
      messages := rfl
      messageSize := rfl
      iSendBufferSize := rfl
      fresh := rfl
      others := others
      within := within
      taken := rfl
      holds := filled
      length := congrArg (· - _) sending.length
      list := by rw [if_pos rfl] }

theorem sendLoop_transmitted (socket : Socket) (sending : conn.Sending buff) :
    ∃ iRet later next, conn.sendLoop socket = .ok (iRet, later, next) ∧
      Transmitted buff (takes (conn.bytesAt buff).length socket) conn next ∧
      iRet = if takes (conn.bytesAt buff).length socket =
        (conn.bytesAt buff).length then .eRetOk else .eRetFull := by
  have unfinished := Nat.ne_of_lt sending.live_length
  induction socket generalizing conn with
  | nil => exact ⟨_, _, conn, rfl, .refl sending, (if_neg unfinished).symm⟩
  | cons answer socket induction =>
      cases answer with
      | none => exact ⟨_, _, conn, rfl, .refl sending, (if_neg unfinished).symm⟩
      | some count =>
          obtain ⟨middle, run, sent⟩ := transmit_transmitted sending count
          generalize size : accepted (conn.bytesAt buff).length count = iRet
            at run sent
          rw [sendLoop, run, ok_bind, takes, size]
          simp only [sent.drained, decide_eq_true_eq]
          by_cases finished : iRet = (conn.bytesAt buff).length
          · rw [if_pos finished]
            exact ⟨_, socket, middle, rfl, by simpa [finished] using sent,
              by simp [finished]⟩
          · have rest := sent.sending finished
            obtain ⟨status, later, next, run', sent', reported⟩ :=
              induction rest (Nat.ne_of_lt rest.live_length)
            rw [sent.bytesAt, List.length_drop] at sent' reported
            rw [if_neg finished, if_neg finished]
            refine ⟨status, later, next, run', sent.trans sent', ?_⟩
            have within := sent.within
            rw [reported]
            apply if_congr _ rfl rfl
            omega

theorem flush_drained (socket : Socket) (empty : conn.drained = true) :
    conn.flush socket = .ok (socket, conn) := by
  cases socket with
  | nil => rfl
  | cons answer socket =>
      cases answer with
      | none => rw [flush, empty, if_pos rfl]
      | some count => rw [flush, empty, if_pos rfl]

theorem flush_transmitted (socket : Socket) (sending : conn.Sending buff) :
    ∃ later next, conn.flush socket = .ok (later, next) ∧
      Transmitted buff (flushes (conn.bytesAt buff).length socket)
        conn next := by
  induction socket generalizing conn with
  | nil => exact ⟨_, conn, rfl, .refl sending⟩
  | cons answer socket induction =>
      have live := sending.drained
      cases answer with
      | none =>
          refine ⟨socket, conn, ?_, .refl sending⟩
          rw [flush, live, if_neg Bool.false_ne_true]
      | some count =>
          obtain ⟨middle, run, sent⟩ := transmit_transmitted sending count
          generalize size : accepted (conn.bytesAt buff).length count = iRet
            at run sent
          rw [flush, live, if_neg Bool.false_ne_true, run, ok_bind, flushes,
            size]
          by_cases nothing : iRet = 0
          · refine ⟨socket, middle, ?_, ?_⟩
            · simp only [if_pos nothing, pure_ok]
            · rwa [if_pos (.inl nothing)]
          simp only [nothing, false_or]
          by_cases finished : iRet = (conn.bytesAt buff).length
          · have empty : middle.drained = true := by
              rw [sent.drained, decide_eq_true finished]
            rw [if_neg id, if_pos finished, flush_drained socket empty]
            exact ⟨socket, middle, rfl, sent⟩
          · obtain ⟨later, next, run', sent'⟩ :=
              induction (sent.sending finished)
            rw [sent.bytesAt, List.length_drop] at sent'
            rw [if_neg id, if_neg finished]
            exact ⟨later, next, run', sent.trans sent'⟩

end Transmitted

/-- At most one chunk in the send buffer, and `waiting` behind it. -/
structure Queued (conn : TcpConnection) (waiting : List BufferId) : Prop where
  chunk : (conn.sendBuffer.bufferList = [] ∧ conn.sendBuffer.length = 0) ∨
    ∃ buff, conn.Sending buff
  distinct : (conn.sendBuffer.bufferList ++ waiting).Nodup
  known : ∀ buff ∈ conn.sendBuffer.bufferList ++ waiting,
    buff < conn.sendBuffer.fresh
  live : ∀ buff ∈ waiting, conn.Live buff

def sizes (conn : TcpConnection) (buffs : List BufferId) : Int :=
  (buffs.map fun buff => ((conn.bytesAt buff).length : Int)).sum

/-- The stream `given` consists of what the socket has taken and of what is
queued; `completed` messages have been taken whole. -/
structure Flow (conn : TcpConnection) (given : List UInt8) (completed : Nat)
    (waiting : List BufferId) : Prop where
  queued : conn.Queued waiting
  stream : conn.taken ++
    (conn.sendBuffer.bufferList ++ waiting).flatMap conn.bytesAt = given
  iSendBufferSize : conn.iSendBufferSize =
    (conn.sendBuffer.bufferList ++ waiting).length + completed

/-- Of the messages in `_messages`, `leak` bytes have been taken since they were
queued. -/
structure Streams (conn : TcpConnection) (given : List UInt8)
    (leak completed : Nat) (waiting : List BufferId) : Prop
    extends conn.Flow given completed waiting where
  messages : conn.messages = waiting ∨
    conn.messages = conn.sendBuffer.bufferList ++ waiting
  messageSize : conn.messageSize = conn.sizes conn.messages + leak

section Streams

variable {conn next : TcpConnection} {given : List UInt8}
  {leak completed count : Nat} {waiting : List BufferId} {buff : BufferId}

theorem sizes_congr {buffs : List BufferId}
    (same : ∀ buff ∈ buffs, next.bytesAt buff = conn.bytesAt buff) :
    next.sizes buffs = conn.sizes buffs := by
  unfold sizes
  congr 1
  apply List.map_congr_left
  intro buff member
  rw [same buff member]

theorem Sending.congr (sending : conn.Sending buff)
    (same : next.sendBuffer = conn.sendBuffer) : next.Sending buff where
  list := same ▸ sending.list
  live := by
    rw [Live, TcpConnection.bytesAt, same]
    exact sending.live
  length := by
    rw [TcpConnection.bytesAt, same]
    exact sending.length

theorem Queued.congr (queued : conn.Queued waiting)
    (same : next.sendBuffer = conn.sendBuffer) : next.Queued waiting where
  chunk := by
    cases queued.chunk with
    | inl idle => exact .inl (same ▸ idle)
    | inr sending =>
        obtain ⟨buff, sending⟩ := sending
        exact .inr ⟨buff, sending.congr same⟩
  distinct := same ▸ queued.distinct
  known := same ▸ queued.known
  live := by
    intro buff member
    rw [Live, TcpConnection.bytesAt, same]
    exact queued.live buff member

theorem Queued.idle (queued : conn.Queued waiting)
    (empty : conn.drained = true) : conn.sendBuffer.bufferList = [] := by
  cases queued.chunk with
  | inl idle => exact idle.1
  | inr sending =>
      obtain ⟨buff, sending⟩ := sending
      rw [sending.drained] at empty
      cases empty

theorem Queued.sending (queued : conn.Queued waiting)
    (live : conn.drained = false) : ∃ buff, conn.Sending buff := by
  cases queued.chunk with
  | inl idle =>
      rw [TcpConnection.drained, idle.2] at live
      cases live
  | inr sending => exact sending

/-- The next message goes into the send buffer. -/
theorem sending_addSharedBuffer (idle : conn.sendBuffer.bufferList = [])
    (nothing : conn.sendBuffer.length = 0) (live : conn.Live buff) :
    { conn with
      sendBuffer := conn.sendBuffer.addSharedBuffer buff }.Sending buff ∧
    (conn.sendBuffer.addSharedBuffer buff).buffers =
      conn.sendBuffer.buffers ∧
    (conn.sendBuffer.addSharedBuffer buff).fresh = conn.sendBuffer.fresh := by
  have filled : (conn.sendBuffer.buffers buff).empty = false := by
    rw [Bool.eq_false_iff, Ne, empty_iff live.1.represents]
    exact live.2
  have added : conn.sendBuffer.addSharedBuffer buff =
      { conn.sendBuffer.pushBack buff with
        length := conn.sendBuffer.length +
          (conn.sendBuffer.buffers buff).length } := by
    rw [NetWorkBuffer.addSharedBuffer, filled, if_neg Bool.false_ne_true]
  rw [added]
  refine ⟨?_, rfl, rfl⟩
  exact {
    list := by
      change conn.sendBuffer.bufferList ++ [buff] = [buff]
      rw [idle, List.nil_append]
    live := live
    length := by
      change conn.sendBuffer.length + _ = _
      rw [nothing, Nat.zero_add, live.1.length_eq]
      rfl }

/-- What is left after the first of the messages has been handed over. -/
theorem Queued.transmitted (live : ∀ other ∈ waiting, conn.Live other)
    (elsewhere : buff ∉ waiting) (distinct : waiting.Nodup)
    (known : ∀ other ∈ buff :: waiting, other < conn.sendBuffer.fresh)
    (sent : Transmitted buff count conn next) : next.Queued waiting where
  chunk := by
    by_cases finished : count = (conn.bytesAt buff).length
    · left
      rw [sent.list, if_pos finished, sent.length, finished]
      exact ⟨rfl, Nat.sub_self _⟩
    · right
      exact ⟨buff, sent.sending finished⟩
  distinct := by
    rw [sent.list]
    split_ifs with finished
    · exact distinct
    · exact List.nodup_cons.mpr ⟨elsewhere, distinct⟩
  known := by
    intro other member
    rw [sent.fresh]
    apply known
    rw [sent.list] at member
    split_ifs at member with finished
    · exact List.mem_cons_of_mem _ member
    · exact member
  live := by
    intro other member
    have different : other ≠ buff := by
      intro same
      exact elsewhere (same ▸ member)
    rw [Live, sent.bytesAt_other different, sent.others other different]
    exact live other member

/-- The stream does not change when the socket takes a part of the first
chunk. -/
theorem Transmitted.stream (sent : Transmitted buff count conn next)
    (elsewhere : buff ∉ waiting) :
    next.taken ++
        (next.sendBuffer.bufferList ++ waiting).flatMap next.bytesAt =
      conn.taken ++ (buff :: waiting).flatMap conn.bytesAt := by
  have others : waiting.flatMap next.bytesAt =
      waiting.flatMap conn.bytesAt := by
    apply List.flatMap_congr
    intro other member
    apply sent.bytesAt_other
    intro same
    exact elsewhere (same ▸ member)
  have left : next.sendBuffer.bufferList.flatMap next.bytesAt =
      (conn.bytesAt buff).drop count := by
    rw [sent.list]
    split_ifs with finished
    · rw [finished, List.drop_length, List.flatMap_nil]
    · rw [List.flatMap_singleton, sent.bytesAt]
  rw [List.flatMap_append, left, others, sent.taken, List.flatMap_cons,
    List.append_assoc, ← List.append_assoc (List.take _ _),
    List.take_append_drop]

/-- What `checkFlow` takes for the backlog. -/
def backlog (conn : TcpConnection) : Int :=
  conn.messageSize + conn.sendBuffer.length

/-- `next` carries the stream `given`; `spares` says that no more bytes of queued
messages have been taken and no more messages have been completed. -/
def Carries (given : List UInt8) (leak completed : Nat) (spares : Prop)
    (next : TcpConnection) : Prop :=
  ∃ leak' completed' waiting, next.Streams given leak' completed' waiting ∧
    leak ≤ leak' ∧ completed ≤ completed' ∧
    (spares ↔ leak' = leak ∧ completed' = completed)

theorem Carries.weaken {leak' completed' : Nat} {spares spares' : Prop}
    (carries : Carries given leak' completed' spares' next)
    (leaks : leak ≤ leak') (completes : completed ≤ completed')
    (spared : spares ↔
      spares' ∧ leak' = leak ∧ completed' = completed) :
    Carries given leak completed spares next := by
  obtain ⟨leak'', completed'', waiting, streams, leaks', completes', same⟩ :=
    carries
  refine ⟨leak'', completed'', waiting, streams, leaks.trans leaks',
    completes.trans completes', ?_⟩
  rw [spared, same]
  omega

theorem Streams.carries (streams : conn.Streams given leak completed waiting)
    {spares : Prop} (holds : spares) :
    Carries given leak completed spares conn :=
  ⟨leak, completed, waiting, streams, Nat.le_refl _, Nat.le_refl _,
    iff_of_true holds ⟨rfl, rfl⟩⟩

theorem sizes_cons (buff : BufferId) (rest : List BufferId) :
    conn.sizes (buff :: rest) = (conn.bytesAt buff).length + conn.sizes rest := by
  rw [sizes, List.map_cons, List.sum_cons, sizes]

theorem Flow.congr (flow : conn.Flow given completed waiting)
    (sendBuffer : next.sendBuffer = conn.sendBuffer)
    (taken : next.taken = conn.taken)
    (iSendBufferSize : next.iSendBufferSize = conn.iSendBufferSize) :
    next.Flow given completed waiting where
  queued := flow.queued.congr sendBuffer
  stream := by
    have same : next.bytesAt = conn.bytesAt := by
      funext other
      rw [TcpConnection.bytesAt, sendBuffer, TcpConnection.bytesAt]
    rw [same, sendBuffer, taken]
    exact flow.stream
  iSendBufferSize := by
    rw [sendBuffer, iSendBufferSize]
    exact flow.iSendBufferSize

theorem Queued.elsewhere (queued : conn.Queued waiting)
    (sending : conn.Sending buff) : buff ∉ waiting ∧ waiting.Nodup := by
  have distinct := queued.distinct
  rw [sending.list, List.singleton_append] at distinct
  exact List.nodup_cons.mp distinct

theorem Queued.sizes_waiting (queued : conn.Queued waiting)
    (sending : conn.Sending buff) (sent : Transmitted buff count conn next) :
    next.sizes waiting = conn.sizes waiting := by
  apply sizes_congr
  intro other member
  apply sent.bytesAt_other
  intro same
  exact (queued.elsewhere sending).1 (same ▸ member)

/-- The socket has taken a part of the first chunk. -/
theorem Flow.transmitted (flow : conn.Flow given completed waiting)
    (sending : conn.Sending buff) (sent : Transmitted buff count conn next) :
    next.Flow given
      (if count = (conn.bytesAt buff).length then completed + 1 else completed)
      waiting where
  queued := by
    obtain ⟨elsewhere, distinct⟩ := flow.queued.elsewhere sending
    have known := flow.queued.known
    rw [sending.list, List.singleton_append] at known
    exact Queued.transmitted flow.queued.live elsewhere distinct known sent
  stream := by
    rw [sent.stream (flow.queued.elsewhere sending).1, ← flow.stream,
      sending.list, List.singleton_append]
  iSendBufferSize := by
    have counted := flow.iSendBufferSize
    rw [sending.list, List.singleton_append, List.length_cons] at counted
    rw [sent.iSendBufferSize, sent.list]
    split_ifs with finished
    · rw [List.nil_append]
      push_cast at counted ⊢
      omega
    · rw [List.singleton_append, List.length_cons]
      push_cast at counted ⊢
      omega

/-- The first message is in the send buffer as well. -/
theorem Flow.addSharedBuffer {rest : List BufferId}
    (flow : conn.Flow given completed (buff :: rest))
    (empty : conn.drained = true) :
    { conn with
      sendBuffer := conn.sendBuffer.addSharedBuffer buff }.Flow given completed
      rest := by
  have idle := flow.queued.idle empty
  obtain ⟨sending, buffers, fresh⟩ := sending_addSharedBuffer idle
    (by simpa [TcpConnection.drained] using empty)
    (flow.queued.live buff List.mem_cons_self)
  have list : (conn.sendBuffer.addSharedBuffer buff).bufferList = [buff] :=
    sending.list
  have same : TcpConnection.bytesAt { conn with
      sendBuffer := conn.sendBuffer.addSharedBuffer buff } = conn.bytesAt := by
    funext other
    rw [TcpConnection.bytesAt, buffers, TcpConnection.bytesAt]
  have distinct := flow.queued.distinct
  have known := flow.queued.known
  have stream := flow.stream
  have counted := flow.iSendBufferSize
  rw [idle, List.nil_append] at distinct known stream counted
  exact {
    queued := {
      chunk := .inr ⟨buff, sending⟩
      distinct := by rwa [list, List.singleton_append]
      known := by rwa [list, List.singleton_append, fresh]
      live := by
        intro other member
        rw [Live, same, buffers]
        exact flow.queued.live other (List.mem_cons_of_mem _ member) }
    stream := by rwa [same, list, List.singleton_append]
    iSendBufferSize := by rwa [list, List.singleton_append] }

/-- One turn of the loop over `_messages` that gets rid of a message. -/
theorem Flow.handed {rest : List BufferId}
    (flow : conn.Flow given completed rest) (sending : conn.Sending buff)
    (size : conn.messageSize = conn.sizes (buff :: rest) + leak)
    (sent : Transmitted buff count conn next) :
    { next with
      messageSize := next.messageSize - (next.sendBuffer.buffers buff).length
      messages := rest }.Streams given (leak + count)
        (if count = (conn.bytesAt buff).length then completed + 1
          else completed) rest where
  toFlow := (flow.transmitted sending sent).congr rfl rfl rfl
  messages := .inl rfl
  messageSize := by
    have within := sent.within
    have left := sent.holds.length_eq
    rw [sizes_cons] at size
    rw [List.length_drop] at left
    change next.messageSize - _ = next.sizes rest + _
    rw [sent.messageSize, flow.queued.sizes_waiting sending sent, left]
    push_cast [within] at size ⊢
    omega

theorem Streams.messages_idle
    (streams : conn.Streams given leak completed waiting)
    (empty : conn.drained = true) : conn.messages = waiting := by
  cases streams.messages with
  | inl listed => exact listed
  | inr listed =>
      rw [listed, streams.queued.idle empty, List.nil_append]

/-- The loop over `_messages`, with an empty send buffer. -/
theorem onRequestCallback_carries (sendable : Bool) (socket : Socket)
    (streams : conn.Streams given leak completed waiting)
    (empty : conn.drained = true) :
    ∃ next, onRequestCallback sendable waiting socket conn = .ok next ∧
      Carries given leak completed (sendable = true →
        ∀ first ∈ waiting.head?,
          takes (conn.bytesAt first).length socket = 0) next ∧
      next.backlog ≤ conn.backlog := by
  induction waiting generalizing conn leak completed socket with
  | nil => exact ⟨conn, rfl, streams.carries (by simp), Int.le_refl _⟩
  | cons buff rest induction =>
      have idle := streams.queued.idle empty
      have nothing : conn.sendBuffer.length = 0 := by
        simpa [TcpConnection.drained] using empty
      have live := streams.queued.live buff List.mem_cons_self
      have filled : (conn.sendBuffer.buffers buff).empty = false := by
        rw [Bool.eq_false_iff, Ne, empty_iff live.1.represents]
        exact live.2
      rw [onRequestCallback, sendRequest, filled, if_neg Bool.false_ne_true,
        empty, if_neg (by decide)]
      cases sendable with
      | false => exact ⟨conn, rfl, streams.carries (by simp), Int.le_refl _⟩
      | true =>
          obtain ⟨sending, buffers, fresh⟩ :=
            sending_addSharedBuffer idle nothing live
          have same : TcpConnection.bytesAt { conn with
              sendBuffer := conn.sendBuffer.addSharedBuffer buff } =
              conn.bytesAt := by
            funext other
            rw [TcpConnection.bytesAt, buffers, TcpConnection.bytesAt]
          have size := streams.messageSize
          rw [streams.messages_idle empty, sizes, ← same] at size
          obtain ⟨iRet, later, next, run, sent, reported⟩ :=
            sendLoop_transmitted socket sending
          have handed :=
            (streams.toFlow.addSharedBuffer empty).handed sending size sent
          rw [same] at sent reported handed
          generalize size : takes (conn.bytesAt buff).length socket = count
            at sent reported handed
          have within := sent.within
          have left := sent.holds.length_eq
          rw [same] at within left
          rw [List.length_drop] at left
          simp only [Bool.not_true, Bool.false_eq_true, if_false, run, ok_bind,
            reported]
          by_cases finished : count = (conn.bytesAt buff).length
          · rw [if_pos finished] at handed
            simp only [if_pos finished, reduceCtorEq, or_self, if_false]
            have empty' : next.drained = true := by
              rw [sent.drained, same, decide_eq_true finished]
            obtain ⟨last, run', carries, backlog⟩ :=
              induction later handed empty'
            refine ⟨last, run', ?_, backlog.trans ?_⟩
            · apply carries.weaken (Nat.le_add_right _ _)
                (Nat.le_succ completed)
              constructor
              · intro spared
                have positive := List.length_pos_iff.mpr live.2
                have none := size ▸ spared trivial buff rfl
                omega
              · intro unchanged
                exact absurd unchanged.2.2 (Nat.succ_ne_self _)
            · have length := sent.length
              rw [same, finished, Nat.sub_self] at length
              change next.messageSize - _ + (next.sendBuffer.length : Int) ≤
                conn.messageSize + (conn.sendBuffer.length : Int)
              rw [sent.messageSize, length]
              change conn.messageSize - _ + _ ≤ _
              omega
          · rw [if_neg finished] at handed
            simp only [if_neg finished, reduceCtorEq, or_self, if_false,
              if_true, pure_ok]
            refine ⟨_, rfl, ?_, ?_⟩
            · refine (handed.carries trivial).weaken (Nat.le_add_right _ _)
                (Nat.le_refl _) ?_
              constructor
              · intro spared
                have none := size ▸ spared trivial buff rfl
                exact ⟨trivial, by omega, rfl⟩
              · intro unchanged _ first member
                obtain rfl : buff = first := Option.some.inj member
                have none := unchanged.2.1
                omega
            · have length := sent.length
              rw [same] at length
              change next.messageSize - _ + (next.sendBuffer.length : Int) ≤
                conn.messageSize + (conn.sendBuffer.length : Int)
              rw [sent.messageSize, length, left]
              change conn.messageSize - _ + _ ≤ _
              omega

/-- A writable event completes no message, and makes no progress with a message
that is queued. -/
def SparesRequest (conn : TcpConnection) (sendable : Bool) (socket : Socket) :
    Prop :=
  match conn.sendBuffer.bufferList, conn.messages with
  | [], [] => True
  | [], first :: _ =>
      sendable = true → takes (conn.bytesAt first).length socket = 0
  | buff :: _, messages =>
      if messages.head? = some buff then
        flushes (conn.bytesAt buff).length socket = 0
      else
        flushes (conn.bytesAt buff).length socket < (conn.bytesAt buff).length

/-- A call of `send` leaves a part of its message in the queue. -/
def SparesSend (conn : TcpConnection) (sendable : Bool) (message : List UInt8)
    (socket : Socket) : Prop :=
  message ≠ [] ∧ (conn.messages = [] → conn.drained = true →
    sendable = true → takes message.length socket < message.length)

/-- The loop over `_messages` when the first of them has been sent whole. -/
theorem onRequestCallback_exhausted (sendable : Bool) (socket : Socket)
    (exhausted : Holds (conn.sendBuffer.buffers buff) []) :
    conn.onRequestCallback sendable (buff :: waiting) socket =
      onRequestCallback sendable waiting socket { conn with
        messageSize := conn.messageSize - (conn.sendBuffer.buffers buff).length
        messages := waiting } := by
  rw [onRequestCallback, sendRequest, (empty_iff exhausted.represents).mpr rfl,
    if_pos rfl, ok_bind]
  simp only [reduceCtorEq, or_self, if_false]

theorem doRequest_carries (sendable : Bool) (socket : Socket)
    (streams : conn.Streams given leak completed waiting) :
    ∃ next, conn.doRequest sendable socket = .ok next ∧
      Carries given leak completed (conn.SparesRequest sendable socket) next ∧
      next.backlog ≤ conn.backlog := by
  cases empty : conn.drained with
  | true =>
      have messages := streams.messages_idle empty
      obtain ⟨next, run, carries, backlog⟩ :=
        onRequestCallback_carries sendable socket streams empty
      refine ⟨next, ?_, ?_, backlog⟩
      · rw [doRequest, flush_drained socket empty, ok_bind]
        simp only [empty, if_true]
        rw [messages, run]
      · apply carries.weaken (Nat.le_refl _) (Nat.le_refl _)
        rw [SparesRequest, streams.queued.idle empty, messages]
        cases waiting with
        | nil => simp
        | cons first rest => simp
  | false =>
      obtain ⟨buff, sending⟩ := streams.queued.sending empty
      obtain ⟨later, middle, run, sent⟩ := flush_transmitted socket sending
      rw [doRequest, run, ok_bind]
      have spared : conn.SparesRequest sendable socket ↔
          if conn.messages.head? = some buff then
            flushes (conn.bytesAt buff).length socket = 0
          else
            flushes (conn.bytesAt buff).length socket <
              (conn.bytesAt buff).length := by
        rw [SparesRequest, sending.list]
      generalize flushes (conn.bytesAt buff).length socket = count at sent spared
      have within := sent.within
      have left := sent.holds.length_eq
      have positive := sending.live_length
      have size := streams.messageSize
      have waiting_size := streams.queued.sizes_waiting sending sent
      rw [List.length_drop] at left
      simp only [sent.drained, decide_eq_true_eq]
      have flow := streams.toFlow.transmitted sending sent
      have shrinks : middle.backlog ≤ conn.backlog := by
        rw [backlog, sent.messageSize, sent.length, backlog, sending.length]
        omega
      by_cases finished : count = (conn.bytesAt buff).length
      · have empty' : middle.drained = true := by
          rw [sent.drained, decide_eq_true finished]
        have unspared : ¬ conn.SparesRequest sendable socket := by
          rw [spared]
          split_ifs
          · omega
          · omega
        have unequal {spares' : Prop} {leak' : Nat} :
            conn.SparesRequest sendable socket ↔
              spares' ∧ leak' = leak ∧ completed + 1 = completed :=
          iff_of_false unspared fun unchanged =>
            Nat.succ_ne_self _ unchanged.2.2
        rw [if_pos finished]
        cases streams.messages with
        | inl detached =>
            have messages := sent.messages.trans detached
            have counted : middle.messageSize =
                middle.sizes middle.messages + leak := by
              rw [messages, sent.messageSize, size, detached, waiting_size]
            have streams' : middle.Streams given leak _ waiting :=
              ⟨flow, .inl messages, counted⟩
            rw [if_pos finished] at streams'
            obtain ⟨next, run, carries, backlog⟩ :=
              onRequestCallback_carries sendable later streams' empty'
            refine ⟨next, ?_, ?_, backlog.trans shrinks⟩
            · rw [messages, run]
            · exact carries.weaken (Nat.le_refl _) (Nat.le_succ _) unequal
        | inr shared =>
            rw [sending.list, List.singleton_append] at shared
            have messages := sent.messages.trans shared
            have exhausted := sent.holds
            rw [finished, List.drop_length] at exhausted
            rw [messages, onRequestCallback_exhausted sendable later exhausted,
              exhausted.length_eq]
            rw [shared] at size
            have streams' := streams.toFlow.handed sending size sent
            rw [if_pos finished, exhausted.length_eq] at streams'
            obtain ⟨next, run, carries, backlog⟩ :=
              onRequestCallback_carries sendable later streams' empty'
            refine ⟨next, run, ?_, backlog.trans ?_⟩
            · exact carries.weaken (Nat.le_add_right _ _) (Nat.le_succ _)
                unequal
            · apply Int.le_trans _ shrinks
              change middle.messageSize - _ + (middle.sendBuffer.length : Int) ≤
                middle.messageSize + (middle.sendBuffer.length : Int)
              rw [List.length_nil]
              omega
      · rw [if_neg finished]
        refine ⟨middle, rfl, ?_, shrinks⟩
        cases streams.messages with
        | inl detached =>
            have messages := sent.messages.trans detached
            have counted : middle.messageSize =
                middle.sizes middle.messages + leak := by
              rw [messages, sent.messageSize, size, detached, waiting_size]
            have streams' : middle.Streams given leak _ waiting :=
              ⟨flow, .inl messages, counted⟩
            rw [if_neg finished] at streams'
            apply streams'.carries
            rw [spared, if_neg]
            · exact Nat.lt_of_le_of_ne within finished
            · rw [detached]
              intro first
              exact (streams.queued.elsewhere sending).1
                (List.mem_of_mem_head? first)
        | inr shared =>
            rw [sending.list, List.singleton_append] at shared
            have messages := sent.messages.trans shared
            have list : middle.sendBuffer.bufferList = [buff] := by
              rw [sent.list, if_neg finished]
            have counted : middle.messageSize =
                middle.sizes middle.messages + (leak + count : Nat) := by
              rw [messages, sizes_cons, sent.bytesAt, waiting_size,
                List.length_drop, sent.messageSize, size, shared, sizes_cons]
              push_cast [within]
              omega
            have streams' : middle.Streams given (leak + count) _ waiting :=
              ⟨flow, .inr (by rw [messages, list, List.singleton_append]),
                counted⟩
            rw [if_neg finished] at streams'
            refine (streams'.carries trivial).weaken (Nat.le_add_right _ _)
              (Nat.le_refl _) ?_
            rw [spared, shared, List.head?_cons, if_pos rfl]
            constructor
            · intro none
              exact ⟨trivial, by omega, rfl⟩
            · intro unchanged
              have none := unchanged.2.1
              omega

/-- The buffer of a new message is in the heap. -/
theorem Streams.adopt (streams : conn.Streams given leak completed waiting)
    (buffer : Buffer) :
    (conn.adopt buffer).Streams given leak completed waiting := by
  have queued := streams.queued
  have others {other : BufferId} (known : other < conn.sendBuffer.fresh) :
      (conn.adopt buffer).sendBuffer.buffers other =
        conn.sendBuffer.buffers other :=
    Function.update_of_ne (Nat.ne_of_lt known) _ _
  have same {other : BufferId} (known : other < conn.sendBuffer.fresh) :
      (conn.adopt buffer).bytesAt other = conn.bytesAt other := by
    rw [TcpConnection.bytesAt, others known, TcpConnection.bytesAt]
  have lives {other : BufferId} (known : other < conn.sendBuffer.fresh)
      (live : conn.Live other) : (conn.adopt buffer).Live other := by
    rw [Live, same known, others known]
    exact live
  have listed : ∀ other ∈ conn.messages,
      other ∈ conn.sendBuffer.bufferList ++ waiting := by
    intro other member
    cases streams.messages with
    | inl messages => exact List.mem_append_right _ (messages ▸ member)
    | inr messages => exact messages ▸ member
  have queued' : (conn.adopt buffer).Queued waiting := {
    chunk := by
      cases queued.chunk with
      | inl idle => exact .inl idle
      | inr sending =>
          obtain ⟨buff, sending⟩ := sending
          have known := queued.known buff (by
            rw [sending.list]
            exact List.mem_cons_self)
          right
          refine ⟨buff, sending.list, lives known sending.live, ?_⟩
          rw [same known]
          exact sending.length
    distinct := queued.distinct
    known := fun other member =>
      Nat.lt_of_lt_of_le (queued.known other member) (Nat.le_max_left _ _)
    live := fun other member =>
      lives (queued.known other (List.mem_append_right _ member))
        (queued.live other member) }
  exact {
    queued := queued'
    messages := streams.messages
    stream := by
      rw [← streams.stream]
      congr 1
      exact List.flatMap_congr fun other member =>
        same (queued.known other member)
    messageSize := by
      have sizes : (conn.adopt buffer).sizes conn.messages =
          conn.sizes conn.messages :=
        sizes_congr fun other member =>
          same (queued.known other (listed other member))
      change conn.messageSize = (conn.adopt buffer).sizes conn.messages + _
      rw [sizes, streams.messageSize]
    iSendBufferSize := streams.iSendBufferSize }

theorem Queued.push (queued : conn.Queued waiting) (live : conn.Live buff)
    (elsewhere : buff ∉ conn.sendBuffer.bufferList ++ waiting)
    (known : buff < conn.sendBuffer.fresh) :
    conn.Queued (waiting ++ [buff]) where
  chunk := queued.chunk
  distinct := by
    rw [← List.append_assoc]
    apply queued.distinct.append (List.nodup_singleton buff)
    intro other member same
    rw [List.mem_singleton.mp same] at member
    exact elsewhere member
  known := by
    intro other member
    rw [← List.append_assoc, List.mem_append] at member
    cases member with
    | inl listed => exact queued.known other listed
    | inr added => rwa [List.mem_singleton.mp added]
  live := by
    intro other member
    cases List.mem_append.mp member with
    | inl listed => exact queued.live other listed
    | inr added =>
        rw [List.mem_singleton.mp added]
        exact live

/-- `increaseSendBufferSize`, for a message with something in it. -/
theorem Flow.push (flow : conn.Flow given completed waiting)
    (live : conn.Live buff)
    (elsewhere : buff ∉ conn.sendBuffer.bufferList ++ waiting)
    (known : buff < conn.sendBuffer.fresh) :
    { conn with iSendBufferSize := conn.iSendBufferSize + 1 }.Flow
      (given ++ conn.bytesAt buff) completed (waiting ++ [buff]) where
  queued := (flow.queued.push live elsewhere known).congr rfl
  stream := by
    change conn.taken ++ (conn.sendBuffer.bufferList ++
      (waiting ++ [buff])).flatMap conn.bytesAt = _
    rw [← List.append_assoc, List.flatMap_append, List.flatMap_singleton,
      ← List.append_assoc, flow.stream]
  iSendBufferSize := by
    change conn.iSendBufferSize + 1 = ((conn.sendBuffer.bufferList ++
      (waiting ++ [buff])).length : Int) + _
    rw [flow.iSendBufferSize, ← List.append_assoc, List.length_append,
      List.length_append, List.length_append, List.length_singleton]
    push_cast
    omega

/-- A message at the end of `_messages`. -/
theorem Streams.push (streams : conn.Streams given leak completed waiting)
    (live : conn.Live buff)
    (elsewhere : buff ∉ conn.sendBuffer.bufferList ++ waiting)
    (known : buff < conn.sendBuffer.fresh) :
    { conn with
      iSendBufferSize := conn.iSendBufferSize + 1
      messageSize := conn.messageSize + (conn.sendBuffer.buffers buff).length
      messages := conn.messages ++ [buff] }.Streams
      (given ++ conn.bytesAt buff) leak completed (waiting ++ [buff]) where
  toFlow := (streams.toFlow.push live elsewhere known).congr rfl rfl rfl
  messages := by
    cases streams.messages with
    | inl listed => exact .inl (congrArg (· ++ [buff]) listed)
    | inr listed =>
        right
        change conn.messages ++ [buff] =
          conn.sendBuffer.bufferList ++ (waiting ++ [buff])
        rw [listed, List.append_assoc]
  messageSize := by
    change conn.messageSize + _ = conn.sizes (conn.messages ++ [buff]) + _
    rw [streams.messageSize, live.1.length_eq, sizes, sizes, List.map_append,
      List.sum_append, List.map_singleton, List.sum_singleton]
    omega

/-- A message without a byte is complete as soon as it is sent. -/
theorem Streams.complete (streams : conn.Streams given leak completed waiting) :
    { conn with iSendBufferSize := conn.iSendBufferSize + 1 }.Streams given leak
      (completed + 1) waiting where
  queued := streams.queued.congr rfl
  messages := streams.messages
  stream := streams.stream
  messageSize := streams.messageSize
  iSendBufferSize := by
    change conn.iSendBufferSize + 1 = _
    rw [streams.iSendBufferSize]
    push_cast
    exact Int.add_assoc _ _ _

theorem Live.filled (live : conn.Live buff) :
    (conn.sendBuffer.buffers buff).empty = false := by
  rw [Bool.eq_false_iff, Ne, empty_iff live.1.represents]
  exact live.2

theorem sendRequest_waits (sendable : Bool) (socket : Socket)
    (live : conn.Live buff)
    (waits : conn.drained = true → sendable = false) :
    conn.sendRequest sendable buff socket =
      .ok (.eRetNotSend, socket, conn) := by
  rw [sendRequest, live.filled, if_neg Bool.false_ne_true]
  cases empty : conn.drained with
  | false => rfl
  | true =>
      rw [waits empty]
      rfl

theorem sendRequest_sends (socket : Socket) (live : conn.Live buff)
    (empty : conn.drained = true) :
    conn.sendRequest true buff socket = sendLoop socket
      { conn with sendBuffer := conn.sendBuffer.addSharedBuffer buff } := by
  rw [sendRequest, live.filled, if_neg Bool.false_ne_true, empty]
  rfl

/-- A message that is sent directly, and whole. -/
theorem Flow.sent_whole (flow : conn.Flow given completed [])
    (sending : conn.Sending buff) (messages : conn.messages = [])
    (size : conn.messageSize = leak) (sent : Transmitted buff count conn next)
    (finished : count = (conn.bytesAt buff).length) :
    next.Streams given leak (completed + 1) [] where
  toFlow := by
    have flow' := flow.transmitted sending sent
    rwa [if_pos finished] at flow'
  messages := .inl (sent.messages.trans messages)
  messageSize := by
    rw [sent.messages, messages, sent.messageSize, size, sizes, List.map_nil,
      List.sum_nil, Int.zero_add]

/-- What is left of a message that is sent directly is queued. -/
theorem Flow.sent_partly (flow : conn.Flow given completed [])
    (sending : conn.Sending buff) (messages : conn.messages = [])
    (size : conn.messageSize = leak) (sent : Transmitted buff count conn next)
    (unfinished : count ≠ (conn.bytesAt buff).length) :
    { next with
      messageSize := next.messageSize + (next.sendBuffer.buffers buff).length
      messages := next.messages ++ [buff] }.Streams given leak completed
      [] where
  toFlow := by
    have flow' := flow.transmitted sending sent
    rw [if_neg unfinished] at flow'
    exact flow'.congr rfl rfl rfl
  messages := by
    right
    change next.messages ++ [buff] = next.sendBuffer.bufferList ++ []
    rw [sent.messages, messages, sent.list, if_neg unfinished]
    rfl
  messageSize := by
    change next.messageSize + _ = next.sizes (next.messages ++ [buff]) + _
    rw [sent.messages, messages, sent.messageSize, size, sent.holds.length_eq,
      List.nil_append, sizes_cons, sent.bytesAt, sizes, List.map_nil,
      List.sum_nil]
    omega

theorem send_carries (sendable : Bool) (socket : Socket)
    (streams : conn.Streams given leak completed waiting)
    (live : conn.Live buff)
    (elsewhere : buff ∉ conn.sendBuffer.bufferList ++ waiting)
    (known : buff < conn.sendBuffer.fresh) :
    ∃ next, conn.send sendable buff socket = .ok next ∧
      Carries (given ++ conn.bytesAt buff) leak completed
        (conn.SparesSend sendable (conn.bytesAt buff) socket) next := by
  have pushed := streams.push live elsewhere known
  have live' : TcpConnection.Live
      { conn with iSendBufferSize := conn.iSendBufferSize + 1 } buff := live
  have filled := live.filled
  by_cases messages : conn.messages = []
  · by_cases waits : conn.drained = true → sendable = false
    · refine ⟨_, ?_, pushed.carries ⟨live.2, ?_⟩⟩
      rotate_left
      · intro _ empty sends
        rw [waits empty] at sends
        cases sends
      have waiting := sendRequest_waits sendable socket live' waits
      simp only [send, if_pos messages, waiting, ok_bind, pure_ok, filled,
        if_neg Bool.false_ne_true]
    · obtain ⟨empty, sends⟩ := Classical.not_imp.mp waits
      obtain rfl : sendable = true := by simpa using sends
      have nothing := streams.messages_idle empty
      rw [messages] at nothing
      subst nothing
      have size := streams.messageSize
      rw [messages, sizes, List.map_nil, List.sum_nil, Int.zero_add] at size
      have flow := (streams.toFlow.push live elsewhere known).addSharedBuffer
        empty
      obtain ⟨direct, buffers, _⟩ :=
        sending_addSharedBuffer (streams.queued.idle empty)
          (by simpa [TcpConnection.drained] using empty) live
      have sending : TcpConnection.Sending
          { conn with
            iSendBufferSize := conn.iSendBufferSize + 1
            sendBuffer := conn.sendBuffer.addSharedBuffer buff } buff :=
        direct.congr rfl
      have run := sendRequest_sends socket live' empty
      have same : TcpConnection.bytesAt { conn with
          iSendBufferSize := conn.iSendBufferSize + 1
          sendBuffer := conn.sendBuffer.addSharedBuffer buff } =
          conn.bytesAt := by
        funext other
        rw [TcpConnection.bytesAt, buffers, TcpConnection.bytesAt]
      obtain ⟨iRet, later, next, loop, sent, _⟩ :=
        sendLoop_transmitted socket sending
      rw [loop] at run
      simp only [send, if_pos messages, run, ok_bind, pure_ok]
      have exhausted := empty_iff sent.holds.represents
      have within := sent.within
      rw [List.drop_eq_nil_iff] at exhausted
      by_cases finished :
          takes (conn.bytesAt buff).length socket = (conn.bytesAt buff).length
      · rw [← same] at finished
        refine ⟨next, if_pos (exhausted.mpr finished.ge), ?_⟩
        apply ((flow.sent_whole sending messages size sent
          finished).carries trivial).weaken (Nat.le_refl _) (Nat.le_succ _)
        rw [same] at finished
        constructor
        · intro spares
          exact absurd finished (Nat.ne_of_lt (spares.2 messages empty rfl))
        · intro unchanged
          exact absurd unchanged.2.2 (Nat.succ_ne_self _)
      · have left : takes (conn.bytesAt buff).length socket <
            (conn.bytesAt buff).length :=
          Nat.lt_of_le_of_ne (same ▸ within) finished
        rw [← same] at finished
        refine ⟨_, if_neg ?_, (flow.sent_partly sending messages size sent
          finished).carries ⟨live.2, fun _ _ _ => left⟩⟩
        intro whole
        exact finished (Nat.le_antisymm within (exhausted.mp whole))
  · refine ⟨_, ?_, pushed.carries
      ⟨live.2, fun nothing => absurd nothing messages⟩⟩
    simp only [send, if_neg messages, pure_ok, ok_bind, filled,
      if_neg Bool.false_ne_true]

end Streams

end TcpConnection

end TarsCpp.Epoll
