import TarsCpp.Epoll.SendStream

/-!
# Runs of sends and writable events, and the backlog

Any sequence of calls of `send` and of writable events on one TCP connection,
with any answers of the socket.

`_messageSize`, `_iSendBufferSize` and the check of `checkFlow` that closes a
congested connection.  As long as nothing is taken of a message that is queued,
and no message is finished, the counters agree with what is held.
-/

namespace TarsCpp.Epoll

open NetworkBuffer TransitionRun

inductive SendEvent
  /-- `send` of a context whose buffer `buff` holds `message`. -/
  | send (message : List UInt8) (buff : Buffer) (sendable : Bool)
      (socket : Socket)
  | doRequest (sendable : Bool) (socket : Socket)

namespace SendEvent

def message : SendEvent → List UInt8
  | send message _ _ _ => message
  | doRequest _ _ => []

def Valid : SendEvent → Prop
  | send message buff _ _ => Represents buff message
  | doRequest _ _ => True

def run (conn : TcpConnection) : SendEvent → Except Failure TcpConnection
  | send _ buff sendable socket => conn.sendContext sendable buff socket
  | doRequest sendable socket => conn.doRequest sendable socket

/-- No byte of a queued message is taken, and no message is completed. -/
def Spares (conn : TcpConnection) : SendEvent → Prop
  | send message _ sendable socket => conn.SparesSend sendable message socket
  | doRequest sendable socket => conn.SparesRequest sendable socket

end SendEvent

def SendStep (conn : TcpConnection) (event : SendEvent)
    (next : TcpConnection) : Prop :=
  event.Valid ∧ event.run conn = .ok next

/-- What should happen to the byte stream. -/
def Appends (stream : List UInt8) (event : SendEvent)
    (stream' : List UInt8) : Prop :=
  stream' = stream ++ event.message

namespace TcpConnection

/-- The buffers of `_sendBuffer`, and those that are only in `_messages`. -/
def holding (conn : TcpConnection) : List BufferId :=
  conn.sendBuffer.bufferList ++
    conn.messages.filter (· ∉ conn.sendBuffer.bufferList)

/-- The bytes that have still to be sent. -/
def held (conn : TcpConnection) : List UInt8 :=
  conn.holding.flatMap conn.bytesAt

section Runs

variable {conn next : TcpConnection} {given : List UInt8}
  {leak completed : Nat} {waiting : List BufferId}

theorem Streams.holding (streams : conn.Streams given leak completed waiting) :
    conn.holding = conn.sendBuffer.bufferList ++ waiting := by
  have distinct := List.nodup_append.mp streams.queued.distinct
  have apart : waiting.filter (· ∉ conn.sendBuffer.bufferList) = waiting := by
    apply List.filter_eq_self.mpr
    intro buff member
    apply decide_eq_true
    intro listed
    exact distinct.2.2 buff listed buff member rfl
  rw [TcpConnection.holding]
  cases streams.messages with
  | inl messages => rw [messages, apart]
  | inr messages =>
      rw [messages, List.filter_append, apart]
      congr 1
      have none : conn.sendBuffer.bufferList.filter
          (· ∉ conn.sendBuffer.bufferList) = [] := by
        apply List.filter_eq_nil_iff.mpr
        intro buff listed outside
        exact of_decide_eq_true outside listed
      rw [none, List.nil_append]

theorem Streams.held (streams : conn.Streams given leak completed waiting) :
    conn.taken ++ conn.held = given := by
  rw [TcpConnection.held, streams.holding]
  exact streams.stream

theorem initially_streams : Streams {} [] 0 0 [] where
  queued := {
    chunk := .inl ⟨rfl, rfl⟩
    distinct := List.nodup_nil
    known := by
      intro buff member
      cases member
    live := by
      intro buff member
      cases member }
  stream := rfl
  iSendBufferSize := rfl
  messages := .inl rfl
  messageSize := rfl

theorem send_empty (sendable : Bool) (socket : Socket) {buff : BufferId}
    (nothing : (conn.sendBuffer.buffers buff).empty = true) :
    conn.send sendable buff socket =
      .ok { conn with iSendBufferSize := conn.iSendBufferSize + 1 } := by
  have request (start : TcpConnection)
      (same : start.sendBuffer = conn.sendBuffer) :
      start.sendRequest sendable buff socket = .ok (.eRetOk, socket, start) := by
    rw [sendRequest, same, if_pos nothing]
  by_cases messages : conn.messages = []
  · simp only [send, if_pos messages, request, ok_bind, pure_ok, if_pos nothing]
  · simp only [send, if_neg messages, ok_bind, pure_ok, if_pos nothing]

/-- `send` of any buffer that holds `message`. -/
theorem sendContext_carries (sendable : Bool) (socket : Socket)
    (streams : conn.Streams given leak completed waiting) {buff : Buffer}
    {message : List UInt8} (represents : Represents buff message) :
    ∃ next, conn.sendContext sendable buff socket = .ok next ∧
      Carries (given ++ message) leak completed
        (conn.SparesSend sendable message socket) next := by
  have adopted := streams.adopt buff
  have stored : (conn.adopt buff).sendBuffer.buffers conn.sendBuffer.fresh =
      buff := Function.update_self _ _ _
  have stored' : (conn.adopt buff).bytesAt conn.sendBuffer.fresh = message := by
    rw [TcpConnection.bytesAt, stored, bytes_eq represents]
  by_cases nothing : message = []
  · refine ⟨_, send_empty sendable socket ?_, ?_⟩
    · rw [stored]
      exact (empty_iff represents).mpr nothing
    · rw [nothing, List.append_nil]
      apply (adopted.complete.carries trivial).weaken (Nat.le_refl _)
        (Nat.le_succ _)
      exact iff_of_false (fun spares => spares.1 rfl)
        (fun unchanged => Nat.succ_ne_self _ unchanged.2.2)
  · have allocated : buff.block.isSome := by
      cases represents with
      | null capacity => exact absurd rfl nothing
      | parts consumed queue spare => rfl
    have live : (conn.adopt buff).Live conn.sendBuffer.fresh := by
      rw [Live, stored', stored]
      exact ⟨represents.holds allocated, nothing⟩
    have elsewhere : conn.sendBuffer.fresh ∉
        conn.sendBuffer.bufferList ++ waiting := by
      intro member
      exact Nat.lt_irrefl _ (streams.queued.known _ member)
    have known : conn.sendBuffer.fresh < (conn.adopt buff).sendBuffer.fresh :=
      Nat.lt_of_lt_of_le (Nat.lt_succ_self _) (Nat.le_max_right _ _)
    obtain ⟨next, run, carries⟩ :=
      send_carries sendable socket adopted live elsewhere known
    rw [stored'] at carries
    exact ⟨next, run, carries⟩

/-- Every event succeeds, and appends its message to the stream. -/
theorem run_carries (streams : conn.Streams given leak completed waiting)
    {event : SendEvent} (valid : event.Valid) :
    ∃ next, event.run conn = .ok next ∧
      Carries (given ++ event.message) leak completed (event.Spares conn)
        next := by
  cases event with
  | send message buff sendable socket =>
      exact sendContext_carries sendable socket streams valid
  | doRequest sendable socket =>
      obtain ⟨next, run, carries, _⟩ :=
        doRequest_carries sendable socket streams
      rw [SendEvent.message, List.append_nil]
      exact ⟨next, run, carries⟩

/-- The connection carries the stream `given`. -/
def Refines (conn : TcpConnection) (given : List UInt8) : Prop :=
  ∃ leak completed waiting, conn.Streams given leak completed waiting

theorem exists_step {event : SendEvent} (refines : conn.Refines given)
    (valid : event.Valid) : ∃ next, SendStep conn event next ∧
      next.Refines (given ++ event.message) := by
  obtain ⟨leak, completed, waiting, streams⟩ := refines
  obtain ⟨next, run, leak', completed', waiting', streams', _⟩ :=
    run_carries streams valid
  exact ⟨next, ⟨valid, run⟩, leak', completed', waiting', streams'⟩

theorem SendStep.refines {event : SendEvent} (refines : conn.Refines given)
    (step : SendStep conn event next) :
    ∃ given', Appends given event given' ∧ next.Refines given' := by
  obtain ⟨next', step', refines'⟩ := exists_step refines step.1
  obtain rfl : next' = next := Except.ok.inj (step'.2.symm.trans step.2)
  exact ⟨_, rfl, refines'⟩

theorem appends_all {events : List SendEvent} {stream stream' : List UInt8}
    (run : Run Appends stream events stream') :
    stream' = stream ++ events.flatMap SendEvent.message := by
  induction run with
  | nil state => rw [List.flatMap_nil, List.append_nil]
  | cons appends _ induction =>
      rw [induction, appends, List.flatMap_cons, List.append_assoc]

/-- What the socket has taken and what is still held are the messages, in the
order of the calls of `send`; and no call fails. -/
theorem runs_keep_stream {events : List SendEvent}
    (run : Run SendStep {} events conn) :
    conn.taken ++ conn.held = events.flatMap SendEvent.message ∧
      ∀ event : SendEvent, event.Valid → ∃ next, SendStep conn event next := by
  obtain ⟨given, appends, refines⟩ :=
    @Run.simulates _ _ _ _ Appends Refines SendStep.refines _ _ _ run []
      ⟨0, 0, [], initially_streams⟩
  constructor
  · obtain ⟨leak, completed, waiting, streams⟩ := refines
    rw [streams.held, appends_all appends, List.nil_append]
  · intro event valid
    obtain ⟨next, step, _⟩ := exists_step refines valid
    exact ⟨next, step⟩

/-- The second message waits for the rest of the first. -/
theorem runs_keep_stream_partly :
    ∃ conn, Run SendStep {}
        [.send [1, 2, 3, 4] (.parts [] [1, 2, 3, 4] []) true [some 1],
          .send [5, 6] (.parts [] [5, 6] []) true [some 2],
          .doRequest true [some 1, none]] conn ∧
      conn.taken ++ conn.held = [1, 2, 3, 4, 5, 6] := by
  obtain ⟨direct, step, refines⟩ :=
    @exists_step {} [] (.send [1, 2, 3, 4] (.parts [] [1, 2, 3, 4] []) true
      [some 1]) ⟨0, 0, [], initially_streams⟩ (.parts [] [1, 2, 3, 4] [])
  obtain ⟨queued, step', refines'⟩ :=
    @exists_step direct _ (.send [5, 6] (.parts [] [5, 6] []) true [some 2])
      refines (.parts [] [5, 6] [])
  obtain ⟨flushed, step'', _⟩ :=
    @exists_step queued _ (.doRequest true [some 1, none]) refines' trivial
  have run := Run.cons step (.cons step' (.cons step'' (.nil flushed)))
  exact ⟨flushed, run, (runs_keep_stream run).1⟩

end Runs

end TcpConnection

/-- `_accumulateBufferSize`, `_lastCheckTime` and `_checkSend`. -/
structure FlowCheck where
  accumulateBufferSize : Nat := 0
  lastCheckTime : Int := 0
  checkSend : List (Nat × Nat) := []

/-- The limits of the `BindAdapter`. -/
structure FlowLimits where
  iBackPacketBuffLimit : Nat := 1024 * 1024
  iBackPacketBuffMin : Nat := 1024

/-- A number as a `size_t`. -/
def sizeT (value : Int) : Nat := (value % 2 ^ 64).toNat

/-- Little has been sent in the last three intervals. -/
def slow (iBackPacketBuffMin : Nat) (checkSend : List (Nat × Nat)) : Bool :=
  3 ≤ checkSend.length &&
    (checkSend.drop (checkSend.length - 3)).all (·.1 ≤ iBackPacketBuffMin)

/-- What was left has never become less. -/
def accumulates (checkSend : List (Nat × Nat)) : Bool :=
  (checkSend.zip checkSend.tail).all fun (earlier, later) =>
    !(later.2 < earlier.2)

namespace TcpConnection

/-- `tnow` are the readings of the clock. -/
def checkFlow (limits : FlowLimits) (tnow : Nat → Int)
    (lastLeftBufferSize : Int) (check : FlowCheck) (conn : TcpConnection) :
    Int × FlowCheck × TcpConnection :=
  let nowSendBufferSize := sizeT (lastLeftBufferSize - conn.backlog)
  if 0 < limits.iBackPacketBuffLimit ∧
      limits.iBackPacketBuffLimit < conn.backlog then
    let lastCheckTime :=
      if check.accumulateBufferSize = 0 then tnow 0 else check.lastCheckTime
    let accumulateBufferSize :=
      sizeT (check.accumulateBufferSize + nowSendBufferSize)
    if 5 ≤ tnow 1 - lastCheckTime then
      let checkSend :=
        check.checkSend ++ [(accumulateBufferSize, sizeT lastLeftBufferSize)]
      let closed := { conn with sendBuffer := conn.sendBuffer.clearBuffers }
      if slow limits.iBackPacketBuffMin checkSend then
        (-5, ⟨0, tnow 2, checkSend⟩, closed)
      else if checkSend.length < 12 then
        (0, ⟨0, tnow 2, checkSend⟩, conn)
      else if accumulates checkSend then
        (-4, ⟨0, tnow 2, checkSend⟩, closed)
      else
        (0, ⟨0, tnow 2, checkSend.tail⟩, conn)
    else
      (0, ⟨accumulateBufferSize, lastCheckTime, check.checkSend⟩, conn)
  else
    (0, ⟨0, tnow 0, []⟩, conn)

/-- The writable event. -/
def sendBufferEvent (limits : FlowLimits) (bClose : Bool) (tnow : Nat → Int)
    (sendable : Bool) (socket : Socket) (check : FlowCheck)
    (conn : TcpConnection) :
    Except Failure (Int × FlowCheck × TcpConnection) := do
  let lastLeftBufferSize := conn.backlog
  let conn ← conn.doRequest sendable socket
  if bClose && conn.drained then
    pure (-2, check, conn)
  else
    pure (conn.checkFlow limits tnow lastLeftBufferSize check)

/-- The counters are the bytes of the queued messages that have not been sent,
and the number of messages that have not been sent completely. -/
structure Accounts (conn : TcpConnection) : Prop where
  messageSize : conn.messageSize = conn.sizes conn.messages
  iSendBufferSize : conn.iSendBufferSize = conn.holding.length

/-- The backlog does not grow in a writable event, and a connection that has
nothing left to send is not taken for a congested one if its counters are
right. -/
def ChecksFlow (conn : TcpConnection) : Prop :=
  ∀ sendable socket, ∃ next, conn.doRequest sendable socket = .ok next ∧
    0 ≤ next.backlog ∧ next.backlog ≤ conn.backlog ∧
    (next.Accounts → next.held = [] → ∀ limits bClose tnow check,
      ∃ iRet check', conn.sendBufferEvent limits bClose tnow sendable socket
          check = .ok (iRet, check', next) ∧ (iRet = 0 ∨ iRet = -2))

section Runs

variable {conn next : TcpConnection} {given : List UInt8}
  {leak completed : Nat} {waiting : List BufferId}

theorem Streams.accounts_iff
    (streams : conn.Streams given leak completed waiting) :
    conn.Accounts ↔ leak = 0 ∧ completed = 0 := by
  have size := streams.messageSize
  have count := streams.iSendBufferSize
  rw [← streams.holding] at count
  constructor
  · intro accounts
    have right := accounts.messageSize
    have right' := accounts.iSendBufferSize
    constructor <;> omega
  · rintro ⟨rfl, rfl⟩
    constructor
    · simpa using size
    · simpa using count

theorem sizes_nonneg (buffs : List BufferId) : 0 ≤ conn.sizes buffs := by
  apply List.sum_nonneg
  intro size member
  obtain ⟨buff, _, rfl⟩ := List.mem_map.mp member
  exact Int.natCast_nonneg _

theorem Streams.backlog_nonneg
    (streams : conn.Streams given leak completed waiting) :
    0 ≤ conn.backlog := by
  have nonneg := @sizes_nonneg conn conn.messages
  rw [backlog, streams.messageSize]
  omega

/-- A connection that holds no byte has no message in a queue. -/
theorem Streams.exhausted
    (streams : conn.Streams given leak completed waiting)
    (nothing : conn.held = []) :
    conn.messages = [] ∧ conn.sendBuffer.length = 0 := by
  rw [TcpConnection.held, streams.holding, List.flatMap_eq_nil_iff] at nothing
  have idle : conn.sendBuffer.bufferList = [] ∧
      conn.sendBuffer.length = 0 := by
    cases streams.queued.chunk with
    | inl idle => exact idle
    | inr sending =>
        obtain ⟨buff, sending⟩ := sending
        have listed : buff ∈ conn.sendBuffer.bufferList ++ waiting := by
          rw [sending.list]
          exact List.mem_cons_self
        exact absurd (nothing buff listed) sending.live.2
  have none : waiting = [] := by
    apply List.eq_nil_iff_forall_not_mem.mpr
    intro buff member
    exact (streams.queued.live buff member).2
      (nothing buff (List.mem_append_right _ member))
  refine ⟨?_, idle.2⟩
  cases streams.messages with
  | inl messages => rw [messages, none]
  | inr messages => rw [messages, idle.1, none, List.append_nil]

/-- A connection whose counters are right and which holds no byte is not
congested. -/
theorem Streams.checkFlow_drained
    (streams : conn.Streams given leak completed waiting)
    (accounts : conn.Accounts) (nothing : conn.held = [])
    (limits : FlowLimits) (tnow : Nat → Int) (lastLeftBufferSize : Int)
    (check : FlowCheck) :
    conn.checkFlow limits tnow lastLeftBufferSize check =
      (0, ⟨0, tnow 0, []⟩, conn) := by
  obtain ⟨messages, length⟩ := streams.exhausted nothing
  have backlog : conn.backlog = 0 := by
    rw [TcpConnection.backlog, accounts.messageSize, messages, length]
    rfl
  have idle : ¬ (0 < limits.iBackPacketBuffLimit ∧
      (limits.iBackPacketBuffLimit : Int) < conn.backlog) := by
    rw [backlog]
    omega
  rw [checkFlow, if_neg idle]

theorem Refines.checksFlow (refines : conn.Refines given) :
    conn.ChecksFlow := by
  obtain ⟨leak, completed, waiting, streams⟩ := refines
  intro sendable socket
  obtain ⟨next, run, ⟨leak', completed', waiting', streams', _⟩, shrinks⟩ :=
    doRequest_carries sendable socket streams
  refine ⟨next, run, streams'.backlog_nonneg, shrinks, ?_⟩
  intro accounts nothing limits bClose tnow check
  rw [sendBufferEvent, run, ok_bind,
    streams'.checkFlow_drained accounts nothing]
  by_cases closes : bClose && next.drained
  · exact ⟨-2, check, if_pos closes, .inr rfl⟩
  · exact ⟨0, _, if_neg closes, .inl rfl⟩

/-- The connection carries a stream, and its counters are right. -/
def Accounted (conn : TcpConnection) : Prop :=
  ∃ given waiting, conn.Streams given 0 0 waiting

/-- From a state with the right counters, exactly the steps that meet the
condition lead to one. -/
theorem SendStep.accounts_iff {event : SendEvent} (accounted : conn.Accounted)
    (step : SendStep conn event next) :
    next.Accounts ↔ event.Spares conn := by
  obtain ⟨given, waiting, streams⟩ := accounted
  obtain ⟨next', run, leak, completed, waiting', streams', _, _, spared⟩ :=
    run_carries streams step.1
  obtain rfl : next' = next := Except.ok.inj (run.symm.trans step.2)
  rw [streams'.accounts_iff, spared]

theorem SendStep.accounted {event : SendEvent} (accounted : conn.Accounted)
    (step : Guarded (fun conn event => SendEvent.Spares conn event) SendStep
      conn event next) : next.Accounted := by
  obtain ⟨given, waiting, streams⟩ := accounted
  obtain ⟨next', run, leak, completed, waiting', streams', _, _, spared⟩ :=
    run_carries streams step.2.1
  obtain rfl : next' = next := Except.ok.inj (run.symm.trans step.2.2)
  obtain ⟨rfl, rfl⟩ := spared.mp step.1
  exact ⟨_, waiting', streams'⟩

/-- The check of the flow is sound in every run, up to the counters; these are
right in the runs all of whose steps meet the condition. -/
theorem runs_account {events : List SendEvent}
    (run : Run SendStep {} events conn) :
    conn.ChecksFlow ∧
      (Run (Guarded (fun conn event => SendEvent.Spares conn event) SendStep)
          {} events conn →
        conn.Accounts ∧ ∀ event next, SendStep conn event next →
          (next.Accounts ↔ event.Spares conn)) := by
  constructor
  · obtain ⟨given, _, refines⟩ :=
      @Run.simulates _ _ _ _ Appends Refines SendStep.refines _ _ _ run []
        ⟨0, 0, [], initially_streams⟩
    exact refines.checksFlow
  · intro guarded
    have accounted : conn.Accounted :=
      @Run.preserves _ _ _ Accounted SendStep.accounted _ _ _ guarded
        ⟨[], [], initially_streams⟩
    constructor
    · obtain ⟨given, waiting, streams⟩ := accounted
      exact streams.accounts_iff.mpr ⟨rfl, rfl⟩
    · intro event next step
      exact SendStep.accounts_iff accounted step

/-- A message that has been sent in part is queued. -/
theorem runs_account_partly :
    ∃ conn, Run SendStep {}
        [.send [1, 2, 3, 4] (.parts [] [1, 2, 3, 4] []) true [some 1]] conn ∧
      conn.Accounts := by
  obtain ⟨conn, step, _⟩ :=
    @exists_step {} [] (.send [1, 2, 3, 4] (.parts [] [1, 2, 3, 4] []) true
      [some 1]) ⟨0, 0, [], initially_streams⟩ (.parts [] [1, 2, 3, 4] [])
  have spares : SendEvent.Spares {}
      (.send [1, 2, 3, 4] (.parts [] [1, 2, 3, 4] []) true [some 1]) :=
    ⟨by decide, fun _ _ _ => by decide⟩
  have run := Run.cons step (.nil conn)
  exact ⟨conn, run, ((runs_account run).2 (.cons ⟨spares, step⟩ (.nil conn))).1⟩

theorem run_of_foldlM {events : List SendEvent}
    (valid : ∀ event ∈ events, event.Valid)
    (answer : events.foldlM SendEvent.run conn = .ok next) :
    Run SendStep conn events next := by
  induction events generalizing conn with
  | nil =>
      obtain rfl : conn = next := Except.ok.inj answer
      exact .nil conn
  | cons event events induction =>
      rw [List.foldlM_cons] at answer
      cases first : event.run conn with
      | error failure =>
          rw [first] at answer
          cases answer
      | ok middle =>
          rw [first, ok_bind] at answer
          exact .cons ⟨valid event List.mem_cons_self, first⟩
            (induction (fun event member =>
              valid event (List.mem_cons_of_mem _ member)) answer)

/-- The rest of a queued message goes out in a writable event: the connection
holds nothing any more, and the counters still count it. -/
theorem doRequest_leaks :
    ∃ conn, Run SendStep {}
        [.send [1, 2, 3, 4] (.parts [] [1, 2, 3, 4] []) true [some 1],
          .doRequest true [some 3]] conn ∧
      conn.held = [] ∧ conn.messageSize = 3 ∧ conn.iSendBufferSize = 1 ∧
      ¬ conn.Accounts := by
  have counters : ([.send [1, 2, 3, 4] (.parts [] [1, 2, 3, 4] []) true
        [some 1], .doRequest true [some 3]].foldlM SendEvent.run {}).toOption.map
      (fun conn => (conn.held, conn.messages, conn.messageSize,
        conn.iSendBufferSize)) = some ([], [], 3, 1) := by
    decide +kernel
  cases answer : [.send [1, 2, 3, 4] (.parts [] [1, 2, 3, 4] []) true
      [some 1], .doRequest true [some 3]].foldlM SendEvent.run {} with
  | error failure =>
      rw [answer] at counters
      cases counters
  | ok conn =>
      rw [answer] at counters
      obtain ⟨nothing, messages, size, count⟩ : conn.held = [] ∧
          conn.messages = [] ∧ conn.messageSize = 3 ∧
          conn.iSendBufferSize = 1 := by
        simpa [Except.toOption] using counters
      refine ⟨conn, run_of_foldlM ?_ answer, nothing, size, count, ?_⟩
      · intro event member
        simp only [List.mem_cons, List.not_mem_nil, or_false] at member
        rcases member with rfl | rfl
        · exact .parts [] [1, 2, 3, 4] []
        · trivial
      · intro accounts
        have right := accounts.messageSize
        rw [size, messages] at right
        cases right

end Runs

end TcpConnection

end TarsCpp.Epoll
