import TarsCpp.NetworkBuffer.Framing
import TarsCpp.Servant.Response

/-!
# Frames of custom protocols

`AppProtocol::parseStream` and `ProxyProtocol::streamResponse`: frames with a
length field, and for responses an id field, at offsets that are template
arguments.  The host is little-endian; `net2host` knows integers of up to four
bytes only.

`streamResponse` hands out a frame but takes only what stands before the id
from the buffer, so that no later frame is found; `parseStream` takes the whole
frame.
-/

namespace TarsCpp.Servant

open ByteOrder NetworkBuffer

/-- The integer types that a length or an id may have. -/
inductive IntegerType
  | int8
  | uint8
  | int16
  | uint16
  | int32
  | uint32
  | int64
  | uint64
deriving DecidableEq, Repr

namespace IntegerType

def sizeof : IntegerType → Nat
  | int8 => 1
  | uint8 => 1
  | int16 => 2
  | uint16 => 2
  | int32 => 4
  | uint32 => 4
  | int64 => 8
  | uint64 => 8

def isSigned : IntegerType → Bool
  | int8 => true
  | int16 => true
  | int32 => true
  | int64 => true
  | _ => false

/-- The conversion of an integer to the type. -/
def convert (T : IntegerType) (value : Int) : Int :=
  if T.isSigned then
    value.bmod (2 ^ (8 * T.sizeof))
  else
    value % 2 ^ (8 * T.sizeof)

/-- `memcpy` into a variable of the type. -/
def ofBytes (T : IntegerType) (bytes : List UInt8) : Int :=
  T.convert (ofBigEndian bytes.reverse)

end IntegerType

/-- `ntohs` and `ntohl`, on words of `width` bytes. -/
def swapped (width : Nat) (word : Int) : Nat :=
  ofBigEndian
    (bigEndian width (word % 2 ^ (8 * width)).toNat).reverse

def net2host (T : IntegerType) (len : Int) : Int :=
  match T.sizeof with
  | 1 => len
  | 2 => T.convert (swapped 2 len)
  | 4 => T.convert (swapped 4 len)
  | _ => 0

/-- An integer field at the start of `bytes`. -/
def readField (T : IntegerType) (netorder : Bool) (bytes : List UInt8) : Int :=
  let value := T.ofBytes (bytes.take T.sizeof)
  if netorder then net2host T value else value

def maxPackageSize : Nat := 1024 * 1024 * 10

namespace AppProtocol

/-- `getHeader` and the `memcpy` of the length field behind it. -/
def readHeaderLen (offset : Nat) (T : IntegerType) (netorder : Bool)
    (net : NetWorkBuffer) : Except Failure Int := do
  let len := offset + T.sizeof
  let header := (← net.getHeader len).getD []
  NetworkBuffer.assert (header.length = len) "header.size() == len"
  pure (readField T netorder (header.drop offset))

def parseStream (offset : Nat) (T : IntegerType) (netorder : Bool)
    (out : List UInt8) (net : NetWorkBuffer) :
    Except Failure (PacketType × List UInt8 × NetWorkBuffer) :=
  let len := offset + T.sizeof
  if net.length < len then
    .ok (.less, out, net)
  else do
    let iHeaderLen ← readHeaderLen offset T netorder net
    let word := (iHeaderLen % 2 ^ 32).toNat
    let size := (iHeaderLen % 2 ^ 64).toNat
    if iHeaderLen < T.convert len ∨ word > maxPackageSize then
      pure (.err, out, net)
    else if net.length < word then
      pure (.less, out, net)
    else
      let out := (← net.getHeader size).getD out
      NetworkBuffer.assert (out.length = size) "out.size() == iHeaderLen"
      let (_, net) ← net.moveHeader size
      pure (.full, out, net)

end AppProtocol

/-- The template arguments of `streamResponse`. -/
structure StreamLayout where
  offset : Nat
  T : IntegerType
  netorder : Bool
  idOffset : Nat
  K : IntegerType
  idNetorder : Bool
  packetMaxSize : Nat := maxPackageSize

namespace ProxyProtocol

/-- `indeterminate` is what `requestId` holds before it is assigned to, which
it only is in network byte order. -/
def streamResponse (layout : StreamLayout) (indeterminate : Int)
    (rsp : ResponsePacket) (net : NetWorkBuffer) :
    Except Failure (PacketType × ResponsePacket × NetWorkBuffer) :=
  let len := layout.offset + layout.T.sizeof
  if net.length < len then
    .ok (.less, rsp, net)
  else do
    let iHeaderLen ←
      AppProtocol.readHeaderLen layout.offset layout.T layout.netorder net
    let word := (iHeaderLen % 2 ^ 32).toNat
    let sizeHeaderLen := (iHeaderLen % 2 ^ 64).toNat
    if sizeHeaderLen > layout.packetMaxSize ∨ iHeaderLen = 0 then
      throw (.thrown (s!"packet length too long or zero,len:" ++
        s!"({layout.packetMaxSize}){iHeaderLen}"))
    else if net.length < word then
      pure (.less, rsp, net)
    else
      let sBuffer := (← net.getHeader sizeHeaderLen).getD rsp.sBuffer
      let (_, net) ← net.moveHeader layout.idOffset
      match ← net.getHeader layout.K.sizeof with
      | none =>
          -- `*(K*)tmp.data()` of an empty vector
          if layout.idNetorder then
            throw .invalidAccess
          else
            pure (.full, { rsp with
              sBuffer, iRequestId := .ofInt 32 indeterminate }, net)
      | some tmp =>
          let requestId :=
            if layout.idNetorder then
              net2host layout.K (layout.K.ofBytes tmp)
            else
              indeterminate
          pure (.full, { rsp with
            sBuffer, iRequestId := .ofInt 32 requestId }, net)

end ProxyProtocol

open TransitionRun

/-- What a field of the type at the start of `bytes` says. -/
def IntegerType.field (T : IntegerType) (netorder : Bool)
    (bytes : List UInt8) : Int :=
  let word := bytes.take T.sizeof
  T.convert (ofBigEndian (if netorder then word else word.reverse))

/-- `net2host` knows the type. -/
def Readable (T : IntegerType) (netorder : Bool) : Prop :=
  netorder = true → T.sizeof ≤ 4

section Fields

variable {T : IntegerType} {netorder : Bool} {bytes : List UInt8}

theorem IntegerType.sizeof_pos (T : IntegerType) : 0 < T.sizeof := by
  cases T <;> decide

theorem IntegerType.sizeof_cases (T : IntegerType) :
    T.sizeof = 1 ∨ T.sizeof = 2 ∨ T.sizeof = 4 ∨ T.sizeof = 8 := by
  cases T <;> decide

/-- The word of a number of the type. -/
theorem convert_mod (T : IntegerType) (value : Int) :
    T.convert value % 2 ^ (8 * T.sizeof) = value % 2 ^ (8 * T.sizeof) := by
  unfold IntegerType.convert
  split_ifs with isSigned
  · exact_mod_cast Int.bmod_emod
  · exact Int.emod_emod _ _

theorem swapped_ofBytes (whole : bytes.length = T.sizeof) :
    swapped T.sizeof (T.ofBytes bytes) = ofBigEndian bytes := by
  have bound := ofBigEndian_lt bytes.reverse
  rw [List.length_reverse, whole, show 256 = 2 ^ 8 by rfl, ← Nat.pow_mul]
    at bound
  have word : (T.ofBytes bytes % 2 ^ (8 * T.sizeof)).toNat =
      ofBigEndian bytes.reverse := by
    rw [IntegerType.ofBytes, convert_mod, Int.emod_eq_of_lt (by omega)
      (by exact_mod_cast bound), Int.toNat_natCast]
  have digits := bigEndian_ofBigEndian bytes.reverse
  rw [List.length_reverse, whole] at digits
  rw [swapped, word, digits, List.reverse_reverse]

theorem readField_eq (readable : Readable T netorder)
    (enough : T.sizeof ≤ bytes.length) :
    readField T netorder bytes = T.field netorder bytes := by
  have whole : (bytes.take T.sizeof).length = T.sizeof :=
    List.length_take_of_le enough
  have same := swapped_ofBytes whole
  unfold readField IntegerType.field net2host
  cases netorder with
  | false => rfl
  | true =>
      have small := readable rfl
      rcases T.sizeof_cases with one | two | four | eight
      · rw [one] at whole
        obtain ⟨byte, single⟩ := List.length_eq_one_iff.mp whole
        simp only [one, single, if_true]
        rfl
      · rw [two] at same
        simp only [two, same, if_true]
      · rw [four] at same
        simp only [four, same, if_true]
      · omega

end Fields

section Calls

variable {net next : NetWorkBuffer} {queue : List UInt8}

/-- The buffer loses at most what is asked for. -/
theorem moveHeaderFrom_length : ∀ (places : List BufferId) (len : Nat)
    (net : NetWorkBuffer) {moved : Bool} {next : NetWorkBuffer},
    NetWorkBuffer.moveHeaderFrom places len net = .ok (moved, next) →
      net.length ≤ next.length + len := by
  intro places
  induction places with
  | nil =>
      intro len net moved next run
      unfold NetWorkBuffer.moveHeaderFrom at run
      split_ifs at run
      · cases run
        omega
      · cases run
        omega
  | cons id rest induction =>
      intro len net moved next run
      unfold NetWorkBuffer.moveHeaderFrom at run
      dsimp only at run
      split_ifs at run with short none more all
      · cases run
        omega
      · cases run
        omega
      · obtain ⟨buff, -, run⟩ := bind_eq_ok run
        cases run
        dsimp only
        omega
      · obtain ⟨buff, -, run⟩ := bind_eq_ok run
        cases run
        dsimp only
        omega
      · obtain ⟨buff, -, run⟩ := bind_eq_ok run
        have later := induction _ _ run
        dsimp only at later
        omega

theorem readHeaderLen_eq {offset : Nat} {T : IntegerType} {netorder : Bool}
    (refines : net.Refines queue) (enough : offset + T.sizeof ≤ queue.length) :
    AppProtocol.readHeaderLen offset T netorder net =
      .ok (readField T netorder (queue.drop offset)) := by
  have length : (queue.take (offset + T.sizeof)).length =
      offset + T.sizeof := List.length_take_of_le enough
  have field : readField T netorder
      ((queue.take (offset + T.sizeof)).drop offset) =
        readField T netorder (queue.drop offset) := by
    unfold readField
    rw [List.drop_take, Nat.add_sub_cancel_left, List.take_take, Nat.min_self]
  simp only [AppProtocol.readHeaderLen, NetWorkBuffer.getHeader_eq refines,
    if_pos enough, ok_bind, pure_ok, Option.getD_some, length, field]
  rfl

/-- Without a frame the buffer is left alone, and with one only what stands
before the id is taken from it. -/
theorem streamResponse_cases {layout : StreamLayout} {indeterminate : Int}
    {rsp rsp' : ResponsePacket} {type : PacketType}
    (run : ProxyProtocol.streamResponse layout indeterminate rsp net =
      .ok (type, rsp', next)) :
    type = .less ∧ next = net ∨
      type = .full ∧
        ∃ moved, net.moveHeader layout.idOffset = .ok (moved, next) := by
  unfold ProxyProtocol.streamResponse at run
  dsimp only at run
  split at run
  · cases run
    exact .inl ⟨rfl, rfl⟩
  obtain ⟨iHeaderLen, -, run⟩ := bind_eq_ok run
  split at run
  · cases run
  split at run
  · cases run
    exact .inl ⟨rfl, rfl⟩
  obtain ⟨header, -, run⟩ := bind_eq_ok run
  obtain ⟨⟨moved, behind⟩, moves, run⟩ := bind_eq_ok run
  obtain ⟨tmp, -, run⟩ := bind_eq_ok run
  cases tmp with
  | none =>
      dsimp only at run
      split at run
      · cases run
      · cases run
        exact .inr ⟨rfl, moved, moves⟩
  | some tmp =>
      cases run
      exact .inr ⟨rfl, moved, moves⟩

end Calls

/-- The length field says how long the frame is, and both fields lie in it. -/
structure StreamLayout.WellFormed (layout : StreamLayout)
    (frame : List UInt8) : Prop where
  length : layout.offset + layout.T.sizeof ≤ frame.length
  id : layout.idOffset + layout.K.sizeof ≤ frame.length
  announced : layout.T.field layout.netorder (frame.drop layout.offset) =
    frame.length

/-- The frame and its id are handed out, and exactly the frame is taken from
the buffer. -/
def StreamLayout.Delivers (layout : StreamLayout) (frame : List UInt8)
    (net : NetWorkBuffer) (rsp : ResponsePacket) (next : NetWorkBuffer) :
    Prop :=
  rsp.sBuffer = frame ∧
  rsp.iRequestId = .ofInt 32
    (layout.K.field layout.idNetorder (frame.drop layout.idOffset)) ∧
  ∃ rest, net.getBuffers = .ok (frame ++ rest) ∧
    next.getBuffers = .ok rest ∧ next.length = rest.length

section Frames

variable {layout : StreamLayout} {frame rest queue : List UInt8}
variable {net next : NetWorkBuffer} {rsp rsp' : ResponsePacket}
variable {indeterminate : Int}

/-- The id lies in the frame, so that not all of the frame stands before it. -/
theorem not_delivers (wellFormed : layout.WellFormed frame)
    (refines : net.Refines queue)
    (run : ProxyProtocol.streamResponse layout indeterminate rsp net =
      .ok (.full, rsp', next)) : ¬ layout.Delivers frame net rsp' next := by
  rintro ⟨-, -, rest, held, -, length⟩
  obtain ⟨⟨⟩, -⟩ | ⟨-, moved, moves⟩ := streamResponse_cases run
  have lost := moveHeaderFrom_length _ _ _ moves
  rw [NetWorkBuffer.getBuffers_eq refines] at held
  have queued := congrArg List.length (Except.ok.inj held)
  rw [List.length_append] at queued
  have id := wellFormed.id
  have positive := layout.K.sizeof_pos
  rw [refines.length, length] at lost
  omega

theorem field_append {T : IntegerType} {netorder : Bool} {offset : Nat}
    (inside : offset + T.sizeof ≤ frame.length) (rest : List UInt8) :
    T.field netorder ((frame ++ rest).drop offset) =
      T.field netorder (frame.drop offset) := by
  have enough : T.sizeof ≤ (frame.drop offset).length := by
    rw [List.length_drop]
    omega
  unfold IntegerType.field
  rw [List.drop_append_of_le_length (by omega),
    List.take_append_of_le_length enough]

/-- The length of a frame is read from a buffer that starts with it. -/
theorem readHeaderLen_frame {offset : Nat} {T : IntegerType} {netorder : Bool}
    (readable : Readable T netorder)
    (inside : offset + T.sizeof ≤ frame.length)
    (announced : T.field netorder (frame.drop offset) = frame.length)
    (refines : net.Refines (frame ++ rest)) :
    AppProtocol.readHeaderLen offset T netorder net = .ok frame.length := by
  have enough : offset + T.sizeof ≤ (frame ++ rest).length := by
    rw [List.length_append]
    omega
  rw [readHeaderLen_eq refines enough, readField_eq readable (by
    rw [List.length_drop]
    omega), field_append inside, announced]

/-- The casts of a length change nothing. -/
theorem cast_length {length bits : Nat} (small : length < 2 ^ bits) :
    ((length : Int) % 2 ^ bits).toNat = length := by
  rw [Int.emod_eq_of_lt (Int.natCast_nonneg _) (by exact_mod_cast small),
    Int.toNat_natCast]

theorem streamResponse_frame (wellFormed : layout.WellFormed frame)
    (readable : Readable layout.T layout.netorder)
    (small : frame.length < 2 ^ 32)
    (fits : frame.length ≤ layout.packetMaxSize)
    (refines : net.Refines (frame ++ rest)) :
    ∃ rsp' next, ProxyProtocol.streamResponse layout indeterminate rsp net =
        .ok (.full, rsp', next) ∧ rsp'.sBuffer = frame ∧
      next.Refines ((frame ++ rest).drop layout.idOffset) := by
  have inside := wellFormed.length
  have id := wellFormed.id
  have whole := refines.length
  rw [List.length_append] at whole
  obtain ⟨next, moves, refines'⟩ := moveHeader_small refines
    (by rw [List.length_append]; omega : layout.idOffset ≤ _) (by omega)
  have behind : layout.K.sizeof ≤
      ((frame ++ rest).drop layout.idOffset).length := by
    rw [List.length_drop, List.length_append]
    omega
  have idBytes := NetWorkBuffer.getHeader_eq refines' layout.K.sizeof
  rw [if_pos behind] at idBytes
  have header := NetWorkBuffer.getHeader_eq refines frame.length
  rw [if_pos (by rw [List.length_append]; omega), List.take_left] at header
  have admitted : ¬ (frame.length > layout.packetMaxSize ∨
      (frame.length : Int) = 0) := by
    have positive := layout.T.sizeof_pos
    omega
  let tmp := ((frame ++ rest).drop layout.idOffset).take layout.K.sizeof
  let requestId :=
    if layout.idNetorder then net2host layout.K (layout.K.ofBytes tmp)
    else indeterminate
  refine ⟨{ rsp with sBuffer := frame, iRequestId := .ofInt 32 requestId },
    next, ?_, rfl, refines'⟩
  simp only [ProxyProtocol.streamResponse,
    readHeaderLen_frame readable inside wellFormed.announced refines,
    ok_bind, pure_ok, cast_length small,
    cast_length (Nat.lt_trans small (by decide : 2 ^ 32 < 2 ^ 64)),
    if_neg admitted, header, moves, idBytes, Option.getD_some,
    if_neg (by omega : ¬ net.length < layout.offset + layout.T.sizeof),
    if_neg (by omega : ¬ net.length < frame.length)]
  rfl

theorem convert_le (T : IntegerType) (value : Nat) :
    T.convert value ≤ value := by
  have below (size : Nat) : (value : Int) % size ≤ value := by
    exact_mod_cast Nat.mod_le value size
  unfold IntegerType.convert
  split_ifs with isSigned
  · have below := below (2 ^ (8 * T.sizeof))
    unfold Int.bmod
    dsimp only
    split
    · exact below
    · omega
  · exact_mod_cast below (2 ^ (8 * T.sizeof))

theorem parseStream_frame {offset : Nat} {T : IntegerType} {netorder : Bool}
    (out : List UInt8) (readable : Readable T netorder)
    (inside : offset + T.sizeof ≤ frame.length)
    (announced : T.field netorder (frame.drop offset) = frame.length)
    (fits : frame.length ≤ maxPackageSize)
    (refines : net.Refines (frame ++ rest)) :
    ∃ next, AppProtocol.parseStream offset T netorder out net =
        .ok (.full, frame, next) ∧ next.Refines rest := by
  have whole := refines.length
  rw [List.length_append] at whole
  have small : frame.length < 2 ^ 32 :=
    Nat.lt_of_le_of_lt fits (by decide)
  obtain ⟨next, moves, refines'⟩ := moveHeader_small refines
    (by rw [List.length_append]; omega : frame.length ≤ _) small
  rw [List.drop_left] at refines'
  have header := NetWorkBuffer.getHeader_eq refines frame.length
  rw [if_pos (by rw [List.length_append]; omega), List.take_left] at header
  have least := convert_le T (offset + T.sizeof)
  have admitted : ¬ ((frame.length : Int) < T.convert (offset + T.sizeof : Nat)
      ∨ frame.length > maxPackageSize) := by
    omega
  refine ⟨next, ?_, refines'⟩
  simp only [AppProtocol.parseStream,
    readHeaderLen_frame readable inside announced refines,
    ok_bind, pure_ok, cast_length small,
    cast_length (Nat.lt_trans small (by decide : 2 ^ 32 < 2 ^ 64)),
    if_neg admitted, header, moves, Option.getD_some,
    if_neg (by omega : ¬ net.length < offset + T.sizeof),
    if_neg (by omega : ¬ net.length < frame.length)]
  rfl

/-- The start of a frame is left alone. -/
theorem parseStream_part {offset : Nat} {T : IntegerType} {netorder : Bool}
    (out : List UInt8) (readable : Readable T netorder)
    (inside : offset + T.sizeof ≤ frame.length)
    (announced : T.field netorder (frame.drop offset) = frame.length)
    (fits : frame.length ≤ maxPackageSize) (part : queue <+: frame)
    (short : queue.length < frame.length) (refines : net.Refines queue) :
    AppProtocol.parseStream offset T netorder out net =
      .ok (.less, out, net) := by
  have small : frame.length < 2 ^ 32 :=
    Nat.lt_of_le_of_lt fits (by decide)
  have length := refines.length
  rw [AppProtocol.parseStream]
  by_cases enough : net.length < offset + T.sizeof
  · rw [if_pos enough]
  · rw [length] at enough
    obtain ⟨rest, rfl⟩ := part
    have inside' : offset + T.sizeof ≤ queue.length := by omega
    have field : readField T netorder (queue.drop offset) =
        (queue ++ rest).length := by
      rw [readField_eq readable (by rw [List.length_drop]; omega),
        ← field_append inside' rest, announced]
    have least := convert_le T (offset + T.sizeof)
    have admitted : ¬ (((queue ++ rest).length : Int) <
        T.convert (offset + T.sizeof : Nat) ∨
        (queue ++ rest).length > maxPackageSize) := by
      omega
    simp only [readHeaderLen_eq refines inside', field, ok_bind, pure_ok,
      cast_length small, if_neg admitted, length, if_neg enough,
      if_pos short]

end Frames

/-- A chunk is appended, or `streamResponse` returns or throws. -/
inductive StreamEvent
  | append (call : NetWorkBuffer.Call) (data : List UInt8)
  | response (type : PacketType) (rsp : ResponsePacket)
  | throws

def StreamEvent.appended : StreamEvent → List UInt8
  | .append _ data => data
  | .response _ _ => []
  | .throws => []

/-- A response has been found. -/
def StreamEvent.Full : StreamEvent → Prop
  | .response .full _ => True
  | _ => False

inductive StreamStep (layout : StreamLayout) :
    NetWorkBuffer → StreamEvent → NetWorkBuffer → Prop
  | append {net call data answer next}
      (appends : call.operation.appended = some data)
      (permitted : NetWorkBuffer.Permitted net call)
      (run : call.run net = .ok (answer, next)) :
      StreamStep layout net (.append call data) next
  | response {net indeterminate rsp type rsp' next}
      (run : ProxyProtocol.streamResponse layout indeterminate rsp net =
        .ok (type, rsp', next)) :
      StreamStep layout net (.response type rsp') next
  | throws {net indeterminate rsp what}
      (run : ProxyProtocol.streamResponse layout indeterminate rsp net =
        .error (.thrown what)) :
      StreamStep layout net .throws net

/-- A chunk that is copied has fewer than `2 ^ 32` bytes. -/
def StreamRegular (net : NetWorkBuffer) : StreamEvent → Prop
  | .append call _ => NetWorkBuffer.Regular net call
  | _ => True

/-- A run in which every response delivers the next frame. -/
inductive InSequence (layout : StreamLayout) :
    List (List UInt8) → NetWorkBuffer → List StreamEvent → NetWorkBuffer → Prop
  | nil {frames net} : InSequence layout frames net [] net
  | other {frames net event next events last}
      (step : Guarded StreamRegular (StreamStep layout) net event next)
      (partly : ¬ event.Full)
      (later : InSequence layout frames next events last) :
      InSequence layout frames net (event :: events) last
  | full {frame frames net rsp next events last}
      (step : Guarded StreamRegular (StreamStep layout) net
        (.response .full rsp) next)
      (delivers : layout.Delivers frame net rsp next)
      (later : InSequence layout frames next events last) :
      InSequence layout (frame :: frames) net
        (.response .full rsp :: events) last

/-- A chunk is appended, or `parseStream` returns. -/
inductive ParseEvent
  | append (call : NetWorkBuffer.Call) (data : List UInt8)
  | returns (type : PacketType) (out : List UInt8)

namespace ParseEvent

def appended : ParseEvent → List UInt8
  | append _ data => data
  | returns _ _ => []

/-- The frame that is handed out. -/
def delivered : ParseEvent → List (List UInt8)
  | returns .full out => [out]
  | returns _ _ => []
  | append _ _ => []

/-- As for `StreamEvent`. -/
def Regular (net : NetWorkBuffer) : ParseEvent → Prop
  | append call _ => NetWorkBuffer.Regular net call
  | returns _ _ => True

end ParseEvent

inductive ParseStep (layout : StreamLayout) :
    NetWorkBuffer → ParseEvent → NetWorkBuffer → Prop
  | append {net call data answer next}
      (appends : call.operation.appended = some data)
      (permitted : NetWorkBuffer.Permitted net call)
      (run : call.run net = .ok (answer, next)) :
      ParseStep layout net (.append call data) next
  | returns {net out type out' next}
      (run : AppProtocol.parseStream layout.offset layout.T layout.netorder
        out net = .ok (type, out', next)) :
      ParseStep layout net (.returns type out') next

/-- The first frames have been handed out; the buffer holds what has been
appended behind them, and the next frame will be handed out when it is there. -/
def ParsesInSequence (layout : StreamLayout) (frames : List (List UInt8))
    (events : List ParseEvent) (last : NetWorkBuffer) : Prop :=
  ∃ left queue, frames = events.flatMap ParseEvent.delivered ++ left ∧
    events.flatMap ParseEvent.appended =
      (events.flatMap ParseEvent.delivered).flatten ++ queue ∧
    last.Reads queue ∧
    ∀ out,
      (∃ frame ∈ left.head?, frame <+: queue ∧ ∃ next,
        AppProtocol.parseStream layout.offset layout.T layout.netorder out
          last = .ok (.full, frame, next)) ∨
      AppProtocol.parseStream layout.offset layout.T layout.netorder out
        last = .ok (.less, out, last) ∧
      ∀ frame ∈ left.head?, ¬ frame <+: queue

section Runs

variable {layout : StreamLayout} {frames : List (List UInt8)}
variable {net next last : NetWorkBuffer} {event : StreamEvent}
variable {events : List StreamEvent} {queue : List UInt8}

/-- Until a response is found, the buffer holds what has been appended. -/
theorem refines_step (refines : net.Refines queue) (partly : ¬ event.Full)
    (step : Guarded StreamRegular (StreamStep layout) net event next) :
    next.Refines (queue ++ event.appended) := by
  obtain ⟨regular, step⟩ := step
  cases step with
  | append appends permitted run =>
      obtain ⟨next', returned, refines'⟩ :=
        append_refines refines appends permitted regular
      rw [run] at returned
      cases returned
      exact refines'
  | @response _ _ type _ _ run =>
      rw [StreamEvent.appended, List.append_nil]
      obtain ⟨-, rfl⟩ | ⟨rfl, -⟩ := streamResponse_cases run
      · exact refines
      · exact absurd trivial partly
  | throws run =>
      rw [StreamEvent.appended, List.append_nil]
      exact refines

theorem refines_run
    (run : Run (Guarded StreamRegular (StreamStep layout)) net events last)
    (partly : ∀ event ∈ events, ¬ event.Full) (refines : net.Refines queue) :
    last.Refines (queue ++ events.flatMap StreamEvent.appended) := by
  induction run generalizing queue with
  | nil net =>
      rw [List.flatMap_nil, List.append_nil]
      exact refines
  | cons step _ induction =>
      rw [List.flatMap_cons, ← List.append_assoc]
      exact induction
        (fun event later => partly event (List.mem_cons_of_mem _ later))
        (refines_step refines (partly _ List.mem_cons_self) step)

theorem InSequence.no_full (sequence : InSequence layout frames net events last)
    (wellFormed : ∀ frame ∈ frames, layout.WellFormed frame)
    (refines : net.Refines queue) : ∀ event ∈ events, ¬ event.Full := by
  induction sequence generalizing queue with
  | nil =>
      intro event member
      cases member
  | other step partly later induction =>
      intro event member
      cases member with
      | head => exact partly
      | tail _ member =>
          exact induction wellFormed (refines_step refines partly step) event
            member
  | full step delivers later induction =>
      cases step.2 with
      | response run =>
          exact absurd delivers
            (not_delivers (wellFormed _ List.mem_cons_self) refines run)

theorem inSequence_of_no_full
    (run : Run (Guarded StreamRegular (StreamStep layout)) net events last)
    (partly : ∀ event ∈ events, ¬ event.Full) :
    InSequence layout frames net events last := by
  induction run with
  | nil net => exact .nil
  | cons step _ induction =>
      exact .other step (partly _ List.mem_cons_self)
        (induction fun event later =>
          partly event (List.mem_cons_of_mem _ later))

section Parses

variable (readable : Readable layout.T layout.netorder)
  (wellFormed : ∀ frame ∈ frames,
    layout.WellFormed frame ∧ frame.length ≤ maxPackageSize)

include readable wellFormed

/-- A call takes the next frame when it is there, and nothing before. -/
theorem parseStream_next (refines : net.Refines queue)
    (part : queue <+: frames.flatten) (out : List UInt8) :
    (∃ frame left queue' next, frames = frame :: left ∧
      queue = frame ++ queue' ∧
      AppProtocol.parseStream layout.offset layout.T layout.netorder out net =
        .ok (.full, frame, next) ∧ next.Refines queue') ∨
    AppProtocol.parseStream layout.offset layout.T layout.netorder out net =
      .ok (.less, out, net) ∧ ∀ frame ∈ frames.head?, ¬ frame <+: queue := by
  cases frames with
  | nil =>
      obtain rfl : queue = [] := List.prefix_nil.mp part
      have length := refines.length
      have positive := layout.T.sizeof_pos
      rw [List.length_nil] at length
      refine .inr ⟨?_, nofun⟩
      rw [AppProtocol.parseStream, if_pos (by omega)]
  | cons frame left =>
      obtain ⟨formed, fits⟩ := wellFormed frame List.mem_cons_self
      rw [List.flatten_cons] at part
      have first := List.prefix_append frame left.flatten
      by_cases there : frame <+: queue
      · obtain ⟨queue', rfl⟩ := there
        obtain ⟨next, returned, refines'⟩ := parseStream_frame out readable
          formed.length formed.announced fits refines
        exact .inl ⟨frame, left, queue', next, rfl, rfl, returned, refines'⟩
      · have short : queue.length < frame.length := Nat.lt_of_not_le fun le =>
          there (List.prefix_of_prefix_length_le first part le)
        refine .inr ⟨parseStream_part out readable formed.length
          formed.announced fits ?_ short refines, ?_⟩
        · exact List.prefix_of_prefix_length_le part first short.le
        · rintro _ ⟨⟩
          exact there

/-- The frames are handed out in their order, whatever the segmentation. -/
theorem parses_run {calls : List ParseEvent}
    (run : Run (Guarded ParseEvent.Regular (ParseStep layout)) net calls last)
    (refines : net.Refines queue)
    (part : queue ++ calls.flatMap ParseEvent.appended <+: frames.flatten) :
    ∃ left queue', frames = calls.flatMap ParseEvent.delivered ++ left ∧
      queue ++ calls.flatMap ParseEvent.appended =
        (calls.flatMap ParseEvent.delivered).flatten ++ queue' ∧
      last.Refines queue' := by
  induction run generalizing frames queue with
  | nil net =>
      refine ⟨frames, queue, rfl, ?_, refines⟩
      rw [List.flatMap_nil, List.flatMap_nil, List.append_nil]
      rfl
  | cons step rest induction =>
      obtain ⟨regular, step⟩ := step
      rw [List.flatMap_cons] at part
      cases step with
      | append appends permitted run =>
          obtain ⟨next, returned, refines'⟩ :=
            append_refines refines appends permitted regular
          rw [run] at returned
          cases returned
          rw [← List.append_assoc] at part
          obtain ⟨left, queue', split, bytes, held⟩ :=
            induction wellFormed refines' part
          refine ⟨left, queue', split, ?_, held⟩
          rw [List.flatMap_cons, ← List.append_assoc]
          exact bytes
      | returns run =>
          have now := (List.prefix_append _ _).trans part
          rcases parseStream_next readable wellFormed refines now _ with
            ⟨frame, left, queue', next, rfl, rfl, returned, refines'⟩ |
              ⟨returned, -⟩
          · rw [run] at returned
            cases returned
            rw [List.flatten_cons, List.append_assoc,
              List.prefix_append_right_inj] at part
            obtain ⟨left', queue'', split, bytes, held⟩ := induction
              (fun frame member =>
                wellFormed frame (List.mem_cons_of_mem _ member))
              refines' part
            refine ⟨left', queue'', ?_, ?_, held⟩
            · rw [split]
              rfl
            · simpa [ParseEvent.appended, ParseEvent.delivered] using bytes
          · rw [run] at returned
            cases returned
            exact induction wellFormed refines part

theorem parsesInSequence {calls : List ParseEvent}
    (run : Run (Guarded ParseEvent.Regular (ParseStep layout)) {} calls last)
    (part : calls.flatMap ParseEvent.appended <+: frames.flatten) :
    ParsesInSequence layout frames calls last := by
  obtain ⟨left, queue, split, bytes, refines⟩ := parses_run readable wellFormed
    run NetWorkBuffer.refines_empty part
  refine ⟨left, queue, split, bytes, refines.reads, fun out => ?_⟩
  have here : queue <+: left.flatten := by
    rw [List.nil_append] at bytes
    rw [bytes, split, List.flatten_append, List.prefix_append_right_inj] at part
    exact part
  have formed : ∀ frame ∈ left,
      layout.WellFormed frame ∧ frame.length ≤ maxPackageSize := fun frame
    member => wellFormed frame (by
      rw [split]
      exact List.mem_append_right _ member)
  rcases parseStream_next readable formed refines here out with
    ⟨frame, left', queue', next, rfl, rfl, returned, -⟩ | less
  · exact .inl ⟨frame, rfl, List.prefix_append _ _, next, returned⟩
  · exact .inr less

end Parses

/-- Responses come in sequence exactly where none is found at all; and one is
found as soon as `streamResponse` is called while a whole frame is in the
buffer.  `parseStream` takes the same frames in their order and nothing else. -/
theorem inSequence_iff
    (wellFormed : ∀ frame ∈ frames, layout.WellFormed frame)
    (run : Run (Guarded StreamRegular (StreamStep layout)) {} events last) :
    (InSequence layout frames {} events last ↔
      ∀ event ∈ events, ¬ event.Full) ∧
    (∀ frame rest, frame ∈ frames → (∀ event ∈ events, ¬ event.Full) →
      events.flatMap StreamEvent.appended = frame ++ rest →
      Readable layout.T layout.netorder → frame.length < 2 ^ 32 →
      frame.length ≤ layout.packetMaxSize →
      ∀ indeterminate rsp, ∃ rsp' next,
        ProxyProtocol.streamResponse layout indeterminate rsp last =
          .ok (.full, rsp', next) ∧ rsp'.sBuffer = frame ∧
        next.Reads ((frame ++ rest).drop layout.idOffset)) ∧
    (Readable layout.T layout.netorder →
      (∀ frame ∈ frames, frame.length ≤ maxPackageSize) → ∀ calls last',
      Run (Guarded ParseEvent.Regular (ParseStep layout)) {} calls last' →
      calls.flatMap ParseEvent.appended <+: frames.flatten →
      ParsesInSequence layout frames calls last') := by
  refine ⟨⟨fun sequence => sequence.no_full wellFormed
    NetWorkBuffer.refines_empty, inSequence_of_no_full run⟩, ?_, ?_⟩
  · intro frame rest member partly appended readable small fits indeterminate
      rsp
    have refines := refines_run run partly NetWorkBuffer.refines_empty
    rw [List.nil_append, appended] at refines
    obtain ⟨rsp', next, returned, same, refines'⟩ := streamResponse_frame
      (wellFormed frame member) readable small fits refines
    exact ⟨rsp', next, returned, same, refines'.reads⟩
  · intro readable fit calls last' parses part
    exact parsesInSequence readable
      (fun frame member => ⟨wellFormed frame member, fit frame member⟩)
      parses part

end Runs

section Witness

/-- Four bytes of length, and the id behind them. -/
def fourFour : StreamLayout where
  offset := 0
  T := .uint32
  netorder := true
  idOffset := 4
  K := .uint32
  idNetorder := true

/-- A frame that consists of its length and the id. -/
def idFrame (id : UInt8) : List UInt8 := [0, 0, 0, 8, 0, 0, 0, id]

def appendFrame (id : UInt8) : StreamEvent :=
  .append ⟨.addBuffer (idFrame id), fun _ => 0⟩ (idFrame id)

theorem wellFormed_idFrame : ∀ id, fourFour.WellFormed (idFrame id) := by
  intro id
  have length : (idFrame id).length = 8 := rfl
  refine ⟨by rw [length]; decide, by rw [length]; decide, ?_⟩
  change IntegerType.uint32.convert (ofBigEndian [0, 0, 0, 8]) = 8
  decide

theorem runs_appendFrame (id : UInt8) :
    ∃ last, Run (Guarded StreamRegular (StreamStep fourFour)) {}
      [appendFrame id] last ∧ last.Refines (idFrame id) := by
  have small : (idFrame id).length < 2 ^ 32 := by
    change 8 < 2 ^ 32
    decide
  obtain ⟨last, run, refines⟩ := @append_refines {} [] (idFrame id)
    ⟨.addBuffer (idFrame id), fun _ => 0⟩ NetWorkBuffer.refines_empty rfl
    trivial small
  exact ⟨last, .cons ⟨small, .append rfl trivial run⟩ (.nil last), refines⟩

def addPart (data : List UInt8) : NetWorkBuffer.Call :=
  ⟨.addBuffer data, fun _ => 0⟩

/-- Both are called when half of the frame is there, and `parseStream` again
behind the other half. -/
theorem inSequence_iff_appended :
    ∃ events calls last last',
      InSequence fourFour [idFrame 5, idFrame 6] {} events last ∧
      events.flatMap StreamEvent.appended = idFrame 5 ∧
      (∃ rsp, .response .less rsp ∈ events) ∧
      ParsesInSequence fourFour [idFrame 5, idFrame 6] calls last' ∧
      calls.flatMap ParseEvent.delivered = [idFrame 5] := by
  have few : ∀ data : List UInt8, data.length < 6 → data.length < 2 ^ 32 :=
    fun data less => less.trans (by decide)
  have half := few [0, 0, 0] (by decide)
  have other := few [8, 0, 0, 0, 5] (by decide)
  have formed : ∀ frame ∈ [idFrame 5, idFrame 6],
      fourFour.WellFormed frame := by
    intro frame member
    rcases List.mem_pair.mp member with rfl | rfl
    · exact wellFormed_idFrame 5
    · exact wellFormed_idFrame 6
  obtain ⟨first, ran, held⟩ := @append_refines {} [] [0, 0, 0]
    (addPart [0, 0, 0]) NetWorkBuffer.refines_empty rfl trivial half
  obtain ⟨second, ran', held'⟩ := @append_refines first _ [8, 0, 0, 0, 5]
    (addPart [8, 0, 0, 0, 5]) held rfl trivial other
  have short : first.length < 4 := by
    rw [held.length]
    decide
  have waits : ProxyProtocol.streamResponse fourFour 0 {} first =
      .ok (.less, {}, first) := by
    rw [ProxyProtocol.streamResponse]
    exact if_pos short
  have waits' : AppProtocol.parseStream 0 .uint32 true [] first =
      .ok (.less, [], first) := by
    rw [AppProtocol.parseStream]
    exact if_pos short
  obtain ⟨last', parsed, -⟩ := @parseStream_frame (idFrame 5) [] second 0
    .uint32 true [] (fun _ => by decide) (by decide)
    (wellFormed_idFrame 5).announced (by decide) held'
  have run : Run (Guarded StreamRegular (StreamStep fourFour)) {}
      [.append (addPart [0, 0, 0]) [0, 0, 0], .response .less {},
        .append (addPart [8, 0, 0, 0, 5]) [8, 0, 0, 0, 5]] second :=
    .cons ⟨half, .append rfl trivial ran⟩ <|
      .cons ⟨trivial, .response waits⟩ <|
      .cons ⟨other, .append rfl trivial ran'⟩ (.nil second)
  have parses : Run (Guarded ParseEvent.Regular (ParseStep fourFour)) {}
      [.append (addPart [0, 0, 0]) [0, 0, 0], .returns .less [],
        .append (addPart [8, 0, 0, 0, 5]) [8, 0, 0, 0, 5],
        .returns .full (idFrame 5)] last' :=
    .cons ⟨half, .append rfl trivial ran⟩ <|
      .cons ⟨trivial, .returns waits'⟩ <|
      .cons ⟨other, .append rfl trivial ran'⟩ <|
      .cons ⟨trivial, .returns parsed⟩ (.nil last')
  have sequences := inSequence_iff formed run
  refine ⟨_, _, second, last', sequences.1.mpr ?_, rfl,
    ⟨{}, List.mem_cons_of_mem _ List.mem_cons_self⟩,
    sequences.2.2 (fun _ => by decide) ?_ _ last' parses ?_, rfl⟩
  · intro event member full
    simp only [List.mem_cons, List.not_mem_nil, or_false] at member
    rcases member with rfl | rfl | rfl <;> cases full
  · intro frame member
    rcases List.mem_pair.mp member with rfl | rfl <;> decide
  · exact ⟨idFrame 6, rfl⟩

/-- Of a frame that is handed out, the id is still in the buffer. -/
theorem streamResponse_keeps_id :
    ∃ last rsp next, Run (Guarded StreamRegular (StreamStep fourFour)) {}
        [appendFrame 5] last ∧
      ProxyProtocol.streamResponse fourFour 0 {} last =
        .ok (.full, rsp, next) ∧ rsp.sBuffer = idFrame 5 ∧
      next.getBuffers = .ok [0, 0, 0, 5] ∧
      ¬ fourFour.Delivers (idFrame 5) last rsp next := by
  obtain ⟨last, run, refines⟩ := runs_appendFrame 5
  have formed := wellFormed_idFrame 5
  rw [← List.append_nil (idFrame 5)] at refines
  obtain ⟨rsp, next, returned, same, refines'⟩ :=
    @streamResponse_frame fourFour (idFrame 5) [] last {} 0 formed
      (fun _ => by decide) (by decide) (by decide) refines
  exact ⟨last, rsp, next, run, returned, same,
    NetWorkBuffer.getBuffers_eq refines', not_delivers formed refines returned⟩

end Witness

end TarsCpp.Servant
