import TarsCpp.TransitionRun
import TarsCpp.NetworkBuffer.Framing

/-!
# The authentication check of a transceiver

`doAuthCheck` stands in front of the parse loop of `doProtocolAnalysis` and
works on the same buffer.  The callbacks are known by their answers.
-/

namespace TarsCpp.Authentication

open NetworkBuffer TransitionRun

inductive AuthStatus
  | eAuthInit
  | eAuthSucc
deriving DecidableEq, Repr

structure Transceiver where
  isTcp : Bool
  /-- The authentication type of the endpoint is `AUTH_TYPELOCAL`. -/
  authTypeLocal : Bool
  authState : AuthStatus := .eAuthInit
  /-- What is in the buffer that is analysed. -/
  buff : List UInt8 := []
  /-- The calls of `_onParserCallback`, in order: the state and the bytes. -/
  parsed : List (AuthStatus × List UInt8) := []

/-- What a callback that verifies an authentication does. -/
structure VerifyAnswer where
  /-- Nothing if it throws. -/
  type : Option PacketType
  consumed : Nat := 0
  /-- When `sendRequest` or `_onRequestCallback` closes the connection. -/
  closes : Bool := false
  /-- When one of them throws. -/
  throws : Bool := false

/-- What `_onParserCallback` and the `_onCompletePackageCallback` behind it do. -/
structure ParserAnswer where
  /-- Nothing if one of them throws. -/
  ret : Option PacketType
  consumed : Nat := 0
  parserCloses : Bool := false
  packageCloses : Bool := false

namespace Transceiver

def tcpClose (conn : Transceiver) : Transceiver :=
  if conn.isTcp then
    { conn with authState := .eAuthInit, buff := [] }
  else
    conn

def closeIf (closes : Bool) (conn : Transceiver) : Transceiver :=
  if closes then conn.tcpClose else conn

/-- The result says whether an exception is thrown. -/
def doAuthCheck (answer : VerifyAnswer) (conn : Transceiver) :
    Bool × Transceiver :=
  if conn.buff ≠ [] ∧ conn.isTcp ∧ conn.authTypeLocal ∧
      conn.authState ≠ .eAuthSucc then
    let conn := { conn with buff := conn.buff.drop answer.consumed }
    match answer.type with
    | none => (true, conn)
    | some .full =>
        (answer.throws,
          { conn with authState := .eAuthSucc }.closeIf answer.closes)
    | some .err => (true, conn)
    | some .less => (false, conn)
    | some .fullClose => (false, conn)
  else
    (false, conn)

/-- The parser sees the buffer, and takes something out of it. -/
def present (consumed : Nat) (conn : Transceiver) : Transceiver :=
  { conn with
    parsed := conn.parsed ++ [(conn.authState, conn.buff)]
    buff := conn.buff.drop consumed }

def callParser (answer : ParserAnswer) (conn : Transceiver) : Transceiver :=
  (conn.present answer.consumed).closeIf answer.parserCloses

/-- The parse loop; after the last of the answers the parser answers
`PACKET_LESS`. -/
def parseLoop : List ParserAnswer → Transceiver → Bool × Transceiver
  | [], conn => (false, conn.callParser ⟨some .less, 0, false, false⟩)
  | answer :: answers, conn =>
      let ioriginal := Int32.ofNat conn.buff.length
      let parsed := conn.callParser answer
      let isurplus := Int32.ofNat parsed.buff.length
      let next := parsed.closeIf answer.packageCloses
      match answer.ret with
      | none => (true, next)
      | some .full =>
          if ioriginal = isurplus then
            (true, next.tcpClose)
          else
            parseLoop answers next
      | some .fullClose => (false, next.tcpClose)
      | some .less => (false, next)
      | some .err => (true, next.tcpClose)

def doProtocolAnalysis (verify : VerifyAnswer) (parser : List ParserAnswer)
    (conn : Transceiver) : Bool × Transceiver :=
  match conn.doAuthCheck verify with
  | (true, conn) => (true, conn)
  | (false, conn) => conn.parseLoop parser

end Transceiver

inductive TransceiverEvent
  /-- A turn of the loop of `doResponse`. -/
  | received (chunk : List UInt8) (verify : VerifyAnswer)
      (parser : List ParserAnswer)
  /-- A chunk that goes to the proxy handshake. -/
  | proxyReply
  /-- `doAuthReq` when no authentication is asked for. -/
  | authTypeNone
  | tcpClose

namespace TransceiverEvent

def run (conn : Transceiver) : TransceiverEvent → Transceiver
  | received chunk verify parser =>
      ({ conn with buff := conn.buff ++ chunk }.doProtocolAnalysis verify
        parser).2
  | proxyReply => { conn with buff := [] }
  | authTypeNone =>
      if conn.authTypeLocal then
        conn
      else
        { conn with authState := .eAuthSucc }
  | tcpClose => conn.tcpClose

/-- The answer of the callback is neither `PACKET_LESS` nor
`PACKET_FULL_CLOSE`, or it leaves nothing, or it is not asked. -/
def Decides (conn : Transceiver) : TransceiverEvent → Prop
  | received chunk verify _ =>
      conn.authState ≠ .eAuthSucc →
        verify.consumed < (conn.buff ++ chunk).length →
          verify.type ≠ some .less ∧ verify.type ≠ some .fullClose
  | _ => True

end TransceiverEvent

def TransceiverStep (conn : Transceiver) (event : TransceiverEvent)
    (next : Transceiver) : Prop :=
  next = event.run conn

namespace Transceiver

/-- The parser has never been called with bytes that are not authenticated. -/
def Authenticated (conn : Transceiver) : Prop :=
  ∀ call ∈ conn.parsed, call.2 ≠ [] → call.1 = .eAuthSucc

/-- A call of the parser would be in order. -/
def Admitted (conn : Transceiver) : Prop :=
  conn.buff ≠ [] → conn.authState = .eAuthSucc

/-- The endpoint asks for authentication. -/
structure Guards (conn : Transceiver) : Prop where
  isTcp : conn.isTcp = true
  authTypeLocal : conn.authTypeLocal = true

section Steps

variable {conn next : Transceiver}

theorem Guards.tcpClose (guards : conn.Guards) :
    conn.tcpClose = { conn with authState := .eAuthInit, buff := [] } := by
  rw [Transceiver.tcpClose, if_pos guards.isTcp]

theorem Guards.closeIf (guards : conn.Guards) (closes : Bool) :
    (conn.closeIf closes).Guards := by
  cases closes with
  | false => exact guards
  | true =>
      rw [Transceiver.closeIf, if_pos rfl, guards.tcpClose]
      exact ⟨guards.isTcp, guards.authTypeLocal⟩

theorem parsed_closeIf (closes : Bool) :
    (conn.closeIf closes).parsed = conn.parsed := by
  rw [closeIf, tcpClose]
  split_ifs <;> rfl

/-- Closing the connection also drops the bytes. -/
theorem Admitted.closeIf (guards : conn.Guards) (admitted : conn.Admitted)
    (closes : Bool) : (conn.closeIf closes).Admitted := by
  cases closes with
  | false => exact admitted
  | true =>
      rw [Transceiver.closeIf, if_pos rfl, guards.tcpClose]
      intro something
      exact absurd rfl something

theorem Guards.callParser (guards : conn.Guards) (answer : ParserAnswer) :
    (conn.callParser answer).Guards := by
  have presented : (conn.present answer.consumed).Guards :=
    ⟨guards.isTcp, guards.authTypeLocal⟩
  exact presented.closeIf _

theorem parsed_callParser (answer : ParserAnswer) :
    (conn.callParser answer).parsed =
      conn.parsed ++ [(conn.authState, conn.buff)] := by
  rw [callParser, parsed_closeIf, present]

theorem Admitted.callParser (guards : conn.Guards) (admitted : conn.Admitted)
    (answer : ParserAnswer) : (conn.callParser answer).Admitted := by
  have presented : (conn.present answer.consumed).Guards :=
    ⟨guards.isTcp, guards.authTypeLocal⟩
  rw [Transceiver.callParser]
  apply Admitted.closeIf presented
  intro something
  apply admitted
  intro nothing
  apply something
  change conn.buff.drop answer.consumed = []
  rw [nothing, List.drop_nil]

/-- One call is in order exactly if it is admitted. -/
theorem authenticated_callParser_iff (answer : ParserAnswer)
    (authenticated : conn.Authenticated) :
    (conn.callParser answer).Authenticated ↔ conn.Admitted := by
  rw [Authenticated, parsed_callParser]
  constructor
  · intro all
    exact all (conn.authState, conn.buff)
      (List.mem_append_right _ (List.mem_singleton_self _))
  · intro admitted call member
    cases List.mem_append.mp member with
    | inl earlier => exact authenticated call earlier
    | inr last =>
        rw [List.mem_singleton.mp last]
        exact admitted

theorem authenticated_congr (same : next.parsed = conn.parsed) :
    next.Authenticated ↔ conn.Authenticated := by
  rw [Authenticated, same, Authenticated]

/-- What the parse loop does behind a call of the parser: it may close the
connection, and it may call the parser again. -/
theorem parseLoop_spec (guards : conn.Guards) (answers : List ParserAnswer) :
    (conn.parseLoop answers).2.Guards ∧
      conn.parsed ++ [(conn.authState, conn.buff)] <+:
        (conn.parseLoop answers).2.parsed ∧
      (conn.Authenticated → conn.Admitted →
        (conn.parseLoop answers).2.Authenticated) := by
  induction answers generalizing conn with
  | nil =>
      have called := guards.callParser ⟨some .less, 0, false, false⟩
      rw [parseLoop]
      refine ⟨called, ?_, ?_⟩
      · rw [parsed_callParser]
      · intro authenticated admitted
        exact (authenticated_callParser_iff _ authenticated).mpr admitted
  | cons answer answers induction =>
      have called := guards.callParser answer
      have closed := called.closeIf answer.packageCloses
      have stays : ((conn.callParser answer).closeIf
          answer.packageCloses).parsed =
          conn.parsed ++ [(conn.authState, conn.buff)] := by
        rw [parsed_closeIf, parsed_callParser]
      have ends : ∀ closes, (((conn.callParser answer).closeIf
          answer.packageCloses).closeIf closes).Guards ∧
          conn.parsed ++ [(conn.authState, conn.buff)] <+:
            (((conn.callParser answer).closeIf
              answer.packageCloses).closeIf closes).parsed ∧
          (conn.Authenticated → conn.Admitted →
            (((conn.callParser answer).closeIf
              answer.packageCloses).closeIf closes).Authenticated) := by
        intro closes
        refine ⟨closed.closeIf closes, ?_, ?_⟩
        · rw [parsed_closeIf, stays]
        · intro authenticated admitted
          rw [authenticated_congr (parsed_closeIf _),
            authenticated_congr (parsed_closeIf _)]
          exact (authenticated_callParser_iff _ authenticated).mpr admitted
      rw [parseLoop]
      cases answer.ret with
      | none => exact ends false
      | some ret =>
          cases ret with
          | less => exact ends false
          | fullClose => exact ends true
          | err => exact ends true
          | full =>
              dsimp only
              split_ifs
              · exact ends true
              · obtain ⟨guards', earlier, authenticates⟩ := induction closed
                refine ⟨guards', ?_, ?_⟩
                · rw [stays] at earlier
                  exact (List.prefix_append _ _).trans earlier
                · intro authenticated admitted
                  apply authenticates
                  · rw [authenticated_congr (parsed_closeIf _)]
                    exact (authenticated_callParser_iff _
                      authenticated).mpr admitted
                  · exact Admitted.closeIf called
                      (admitted.callParser guards answer) _

theorem Guards.doAuthCheck (guards : conn.Guards) (answer : VerifyAnswer) :
    (conn.doAuthCheck answer).2.Guards := by
  rw [Transceiver.doAuthCheck]
  split_ifs
  · dsimp only
    split
    · exact ⟨guards.isTcp, guards.authTypeLocal⟩
    · exact @Guards.closeIf { conn with
        authState := .eAuthSucc
        buff := conn.buff.drop answer.consumed }
        ⟨guards.isTcp, guards.authTypeLocal⟩ answer.closes
    · exact ⟨guards.isTcp, guards.authTypeLocal⟩
    · exact ⟨guards.isTcp, guards.authTypeLocal⟩
    · exact ⟨guards.isTcp, guards.authTypeLocal⟩
  · exact guards

theorem parsed_doAuthCheck (answer : VerifyAnswer) :
    (conn.doAuthCheck answer).2.parsed = conn.parsed := by
  rw [doAuthCheck]
  split_ifs
  · dsimp only
    split
    · rfl
    · rw [parsed_closeIf]
    · rfl
    · rfl
    · rfl
  · rfl

/-- The check lets the parse loop go on with bytes that are not authenticated
exactly if the callback has left the question open. -/
theorem admitted_doAuthCheck_iff (guards : conn.Guards)
    (answer : VerifyAnswer) :
    ((conn.doAuthCheck answer).1 = false →
        (conn.doAuthCheck answer).2.Admitted) ↔
      (conn.authState ≠ .eAuthSucc → answer.consumed < conn.buff.length →
        answer.type ≠ some .less ∧ answer.type ≠ some .fullClose) := by
  have left : conn.buff.drop answer.consumed = [] ↔
      ¬ answer.consumed < conn.buff.length := by
    rw [List.drop_eq_nil_iff, not_lt]
  by_cases succeeded : conn.authState = .eAuthSucc
  · have skipped : ¬ (conn.buff ≠ [] ∧ conn.isTcp ∧ conn.authTypeLocal ∧
        conn.authState ≠ .eAuthSucc) := fun check => check.2.2.2 succeeded
    rw [doAuthCheck, if_neg skipped]
    simp [Admitted, succeeded]
  · by_cases nothing : conn.buff = []
    · have skipped : ¬ (conn.buff ≠ [] ∧ conn.isTcp ∧ conn.authTypeLocal ∧
          conn.authState ≠ .eAuthSucc) := fun check => check.1 nothing
      rw [doAuthCheck, if_neg skipped]
      simp [Admitted, nothing]
    · have checks : conn.buff ≠ [] ∧ conn.isTcp ∧ conn.authTypeLocal ∧
          conn.authState ≠ .eAuthSucc :=
        ⟨nothing, guards.isTcp, guards.authTypeLocal, succeeded⟩
      rw [doAuthCheck, if_pos checks]
      have undecided : Admitted { conn with
          buff := conn.buff.drop answer.consumed } ↔
          ¬ answer.consumed < conn.buff.length := by
        rw [Admitted, Ne, left, not_not]
        exact ⟨fun admitted more => succeeded (admitted more),
          fun enough more => absurd more enough⟩
      cases answer.type with
      | none => simp
      | some type =>
          cases type with
          | full =>
              have guards' : Guards { conn with
                  buff := conn.buff.drop answer.consumed
                  authState := .eAuthSucc } :=
                ⟨guards.isTcp, guards.authTypeLocal⟩
              have admitted := Admitted.closeIf guards' (fun _ => rfl)
                answer.closes
              simp [admitted]
          | err => simp
          | less => simpa [succeeded] using undecided
          | fullClose => simpa [succeeded] using undecided

/-- One turn of the loop of `doResponse`. -/
theorem received_spec (guards : conn.Guards) (chunk : List UInt8)
    (verify : VerifyAnswer) (parser : List ParserAnswer)
    (authenticated : conn.Authenticated) :
    ((TransceiverEvent.received chunk verify parser).run conn).Guards ∧
      (((TransceiverEvent.received chunk verify parser).run
          conn).Authenticated ↔
        (TransceiverEvent.received chunk verify parser).Decides conn) := by
  have filled : Guards { conn with buff := conn.buff ++ chunk } :=
    ⟨guards.isTcp, guards.authTypeLocal⟩
  have decides := admitted_doAuthCheck_iff filled verify
  have checked := filled.doAuthCheck verify
  have same := @parsed_doAuthCheck { conn with buff := conn.buff ++ chunk }
    verify
  rw [TransceiverEvent.run, doProtocolAnalysis, TransceiverEvent.Decides,
    ← decides]
  generalize doAuthCheck verify { conn with buff := conn.buff ++ chunk } =
    result at checked same
  obtain ⟨thrown, next⟩ := result
  have authenticated' : next.Authenticated :=
    (authenticated_congr same).mpr authenticated
  cases thrown with
  | true => exact ⟨checked, iff_of_true authenticated' nofun⟩
  | false =>
      obtain ⟨guards', earlier, authenticates⟩ := parseLoop_spec checked parser
      refine ⟨guards', ?_⟩
      constructor
      · intro all _
        exact all _ (earlier.subset
          (List.mem_append_right _ (List.mem_singleton_self _)))
      · intro admitted
        exact authenticates authenticated' (admitted rfl)

theorem TransceiverStep.spec {event : TransceiverEvent}
    (guards : conn.Guards) (authenticated : conn.Authenticated)
    (step : TransceiverStep conn event next) :
    next.Guards ∧ (next.Authenticated ↔ event.Decides conn) := by
  subst step
  cases event with
  | received chunk verify parser =>
      exact received_spec guards chunk verify parser authenticated
  | proxyReply =>
      exact ⟨⟨guards.isTcp, guards.authTypeLocal⟩,
        iff_of_true authenticated trivial⟩
  | authTypeNone =>
      rw [TransceiverEvent.run, if_pos guards.authTypeLocal]
      exact ⟨guards, iff_of_true authenticated trivial⟩
  | tcpClose =>
      rw [TransceiverEvent.run, guards.tcpClose]
      exact ⟨⟨guards.isTcp, guards.authTypeLocal⟩,
        iff_of_true authenticated trivial⟩

/-- In a run in which the callbacks always decide the parser sees authenticated
bytes only; and it would see others as soon as one does not. -/
theorem runs_authenticate {events : List TransceiverEvent}
    (run : Run (Guarded (fun conn event => TransceiverEvent.Decides conn event)
      TransceiverStep) ⟨true, true, .eAuthInit, [], []⟩ events conn) :
    conn.Authenticated ∧ ∀ event next, TransceiverStep conn event next →
      (next.Authenticated ↔ event.Decides conn) := by
  have spec : conn.Guards ∧ conn.Authenticated := by
    refine @Run.preserves _ _ _ (fun conn : Transceiver =>
      conn.Guards ∧ conn.Authenticated) ?_ _ _ _ run ⟨⟨rfl, rfl⟩, nofun⟩
    intro state event next holds step
    obtain ⟨guards, decided⟩ :=
      TransceiverStep.spec holds.1 holds.2 step.2
    exact ⟨guards, decided.mpr step.1⟩
  refine ⟨spec.2, ?_⟩
  intro event next step
  exact (TransceiverStep.spec spec.1 spec.2 step).2

/-- A frame that is accepted, and a packet behind it. -/
theorem runs_authenticate_accepted :
    ∃ conn, Run (Guarded (fun conn event => TransceiverEvent.Decides conn event)
        TransceiverStep) ⟨true, true, .eAuthInit, [], []⟩
        [.received [1, 2, 3] ⟨some .full, 2, false, false⟩
          [⟨some .full, 1, false, false⟩]] conn ∧
      conn.parsed = [(.eAuthSucc, [3]), (.eAuthSucc, [])] ∧
      conn.Authenticated := by
  have run : Run (Guarded
      (fun conn event => TransceiverEvent.Decides conn event) TransceiverStep)
      ⟨true, true, .eAuthInit, [], []⟩
      [.received [1, 2, 3] ⟨some .full, 2, false, false⟩
        [⟨some .full, 1, false, false⟩]] _ :=
    .cons ⟨fun _ _ => ⟨nofun, nofun⟩, rfl⟩ (.nil _)
  exact ⟨_, run, rfl, (runs_authenticate run).1⟩

/-- The callback has not seen enough yet; the parser sees the same bytes. -/
theorem received_undecided :
    ∃ conn, Run TransceiverStep ⟨true, true, .eAuthInit, [], []⟩
        [.received [1] ⟨some .less, 0, false, false⟩ []] conn ∧
      conn.parsed = [(.eAuthInit, [1])] ∧ ¬ conn.Authenticated := by
  refine ⟨_, .cons rfl (.nil _), rfl, ?_⟩
  intro authenticated
  have succeeded := authenticated (.eAuthInit, [1]) (List.mem_singleton_self _)
    nofun
  cases succeeded

end Steps

end Transceiver

end TarsCpp.Authentication
