import TarsCpp.ByteOrder
import TarsCpp.NetworkBuffer.QueueRuns

/-!
# Length-prefixed framing

`TC_NetWorkBuffer::parseBuffer<T>`: a frame is its own length, as a big-endian
`T`, and a payload.  However a stream of frames is cut into appended chunks,
parsing gives the payloads back.
-/

namespace TarsCpp.NetworkBuffer

open ByteOrder TransitionRun

/-- The unsigned types that `parseBuffer` is instantiated with. -/
inductive LengthType
  | uint8
  | uint16
  | uint32
deriving DecidableEq, Repr

def LengthType.sizeof : LengthType → Nat
  | .uint8 => 1
  | .uint16 => 2
  | .uint32 => 4

abbrev LengthType.Value (T : LengthType) := BitVec (8 * T.sizeof)

inductive PacketType
  | less
  | full
  | fullClose
  | err
deriving DecidableEq, Repr

namespace NetWorkBuffer

def getValue (T : LengthType) (net : NetWorkBuffer) :
    Except Failure T.Value := do
  match ← net.getHeader T.sizeof with
  | some buffer => pure (.ofNat _ (ofBigEndian buffer))
  | none => pure 0

def parseBuffer (T : LengthType) (buffer : List UInt8)
    (minLength maxLength : T.Value) (net : NetWorkBuffer) :
    Except Failure (PacketType × List UInt8 × NetWorkBuffer) :=
  if net.length < T.sizeof then
    .ok (.less, buffer, net)
  else do
    let minLength :=
      if minLength.toNat < T.sizeof then .ofNat _ T.sizeof else minLength
    let length ← net.getValue T
    if length < minLength ∨ length > maxLength then
      pure (.err, buffer, net)
    else if net.length < length.toNat then
      pure (.less, buffer, net)
    else
      let (_, net) ← net.moveHeader T.sizeof
      match ← net.getHeader (length.toNat - T.sizeof) with
      | none => pure (.less, buffer, net)
      | some buffer =>
          let (_, net) ← net.moveHeader (length.toNat - T.sizeof)
          pure (.full, buffer, net)

end NetWorkBuffer

variable {T : LengthType} {minLength maxLength : T.Value}

theorem LengthType.sizeof_pos (T : LengthType) : 0 < T.sizeof := by
  cases T <;> decide

theorem LengthType.bits_le (T : LengthType) : 8 * T.sizeof ≤ 32 := by
  cases T <;> decide

theorem LengthType.toNat_lt (value : T.Value) : value.toNat < 2 ^ 32 :=
  Nat.lt_of_lt_of_le value.isLt (Nat.pow_le_pow_right (by decide) T.bits_le)

/-- The length that stands in front of a queue. -/
def announced (T : LengthType) (queue : List UInt8) : Nat :=
  ofBigEndian (queue.take T.sizeof)

/-- What `parseBuffer` makes of a queue: the kind of packet, the payload, and
what remains. -/
def parsed (T : LengthType) (buffer : List UInt8)
    (minLength maxLength : T.Value) (queue : List UInt8) :
    PacketType × List UInt8 × List UInt8 :=
  let length := announced T queue
  if queue.length < T.sizeof then
    (.less, buffer, queue)
  else if length < max minLength.toNat T.sizeof ∨
      length > maxLength.toNat then
    (.err, buffer, queue)
  else if queue.length < length then
    (.less, buffer, queue)
  else
    (.full, (queue.drop T.sizeof).take (length - T.sizeof), queue.drop length)

theorem announced_lt (T : LengthType) (queue : List UInt8) :
    announced T queue < 2 ^ (8 * T.sizeof) := by
  have short : (queue.take T.sizeof).length ≤ T.sizeof := by
    rw [List.length_take]
    exact Nat.min_le_left _ _
  calc
    announced T queue < 256 ^ (queue.take T.sizeof).length :=
      ofBigEndian_lt _
    _ ≤ 256 ^ T.sizeof := Nat.pow_le_pow_right (by decide) short
    _ = 2 ^ (8 * T.sizeof) := by rw [Nat.pow_mul]

/-- `minLength` is raised to the size of the length itself. -/
theorem toNat_raised (value : T.Value) :
    (if value.toNat < T.sizeof then BitVec.ofNat _ T.sizeof
      else value).toNat = max value.toNat T.sizeof := by
  have fits : T.sizeof < 2 ^ (8 * T.sizeof) := by
    cases T <;> decide
  split_ifs with small
  · rw [BitVec.toNat_ofNat, Nat.mod_eq_of_lt fits, Nat.max_eq_right small.le]
  · rw [Nat.max_eq_left (Nat.not_lt.mp small)]

theorem getValue_eq {net : NetWorkBuffer} {queue : List UInt8}
    (refines : net.Refines queue) (enough : T.sizeof ≤ queue.length) :
    net.getValue T = .ok (.ofNat _ (announced T queue)) := by
  simp only [NetWorkBuffer.getValue, NetWorkBuffer.getHeader_eq refines,
    if_pos enough, ok_bind, pure_ok, announced]

theorem moveHeader_small {net : NetWorkBuffer} {queue : List UInt8} {len : Nat}
    (refines : net.Refines queue) (held : len ≤ queue.length)
    (small : len < 2 ^ 32) :
    ∃ next, net.moveHeader len = .ok (true, next) ∧
      next.Refines (queue.drop len) := by
  obtain ⟨next, run, refines'⟩ := NetWorkBuffer.moveHeader_refines refines
    (fun _ => Nat.lt_of_le_of_lt (NetWorkBuffer.partialDrop_le _ len) small)
  rw [decide_eq_true held] at run
  rw [if_pos held] at refines'
  exact ⟨next, run, refines'⟩

theorem parseBuffer_refines {net : NetWorkBuffer} {queue : List UInt8}
    (buffer : List UInt8) (refines : net.Refines queue) :
    ∃ next, net.parseBuffer T buffer minLength maxLength =
        .ok ((parsed T buffer minLength maxLength queue).1,
          (parsed T buffer minLength maxLength queue).2.1, next) ∧
      next.Refines (parsed T buffer minLength maxLength queue).2.2 ∧
      ((parsed T buffer minLength maxLength queue).1 ≠ .full →
        next = net) := by
  by_cases short : queue.length < T.sizeof
  · have lengthShort := short
    rw [← refines.length] at lengthShort
    refine ⟨net, ?_, ?_, fun _ => rfl⟩
    · simp only [NetWorkBuffer.parseBuffer, if_pos lengthShort, parsed,
        if_pos short]
    · simpa only [parsed, if_pos short] using refines
  obtain ⟨length, chosen⟩ : ∃ length, length = announced T queue := ⟨_, rfl⟩
  have value : (BitVec.ofNat (8 * T.sizeof) length).toNat = length := by
    rw [BitVec.toNat_ofNat, Nat.mod_eq_of_lt (chosen ▸ announced_lt T queue)]
  have peeked := getValue_eq refines (Nat.not_lt.mp short)
  rw [← chosen] at peeked
  simp only [NetWorkBuffer.parseBuffer, peeked, ok_bind, pure_ok,
    BitVec.lt_def, gt_iff_lt, toNat_raised, value, refines.length,
    parsed, if_neg short, ← chosen]
  by_cases wrong : length < max minLength.toNat T.sizeof ∨
      maxLength.toNat < length
  · simp only [if_pos wrong]
    exact ⟨net, rfl, refines, fun _ => rfl⟩
  by_cases missing : queue.length < length
  · simp only [if_neg wrong, if_pos missing]
    exact ⟨net, rfl, refines, fun _ => rfl⟩
  · simp only [if_neg wrong, if_neg missing]
    have within : length < 2 ^ 32 := by
      rw [← value]
      exact LengthType.toNat_lt _
    rw [not_or, Nat.not_lt, Nat.not_lt, max_le_iff] at wrong
    obtain ⟨⟨_, least⟩, _⟩ := wrong
    have rest : (queue.drop T.sizeof).length = queue.length - T.sizeof :=
      List.length_drop
    obtain ⟨behind, moved, refines'⟩ := moveHeader_small refines
      (Nat.not_lt.mp short) (Nat.lt_of_le_of_lt least within)
    have payload : length - T.sizeof ≤ (queue.drop T.sizeof).length := by
      omega
    obtain ⟨next, moved', refines''⟩ :=
      moveHeader_small refines' payload (by omega)
    have got := NetWorkBuffer.getHeader_eq refines' (length - T.sizeof)
    rw [if_pos payload] at got
    rw [List.drop_drop, Nat.add_sub_cancel' least] at refines''
    refine ⟨next, ?_, refines'', fun partly => absurd rfl partly⟩
    simp only [moved, got, moved', ok_bind]

/-- A payload, behind the length of the whole. -/
def frame (T : LengthType) (payload : List UInt8) : List UInt8 :=
  bigEndian T.sizeof (T.sizeof + payload.length) ++ payload

def frames (T : LengthType) (payloads : List (List UInt8)) : List UInt8 :=
  payloads.flatMap (frame T)

/-- The frame of `payload` has an admissible length. -/
def Fits (T : LengthType) (minLength maxLength : T.Value)
    (payload : List UInt8) : Prop :=
  max minLength.toNat T.sizeof ≤ T.sizeof + payload.length ∧
    T.sizeof + payload.length ≤ maxLength.toNat

theorem length_frame (payload : List UInt8) :
    (frame T payload).length = T.sizeof + payload.length := by
  rw [frame, List.length_append, length_bigEndian]

theorem announced_frame {payload queue rest : List UInt8}
    (fits : Fits T minLength maxLength payload)
    (enough : T.sizeof ≤ queue.length)
    (leads : queue <+: frame T payload ++ rest) :
    announced T queue = T.sizeof + payload.length := by
  have small : T.sizeof + payload.length < 256 ^ T.sizeof := by
    have bounded := Nat.lt_of_le_of_lt fits.2 maxLength.isLt
    rwa [Nat.pow_mul] at bounded
  have front : queue.take T.sizeof =
      bigEndian T.sizeof (T.sizeof + payload.length) := by
    obtain ⟨unread, whole⟩ := leads
    have width := length_bigEndian T.sizeof (T.sizeof + payload.length)
    calc
      queue.take T.sizeof = (queue ++ unread).take T.sizeof :=
        (List.take_append_of_le_length enough).symm
      _ = (bigEndian T.sizeof (T.sizeof + payload.length) ++
          (payload ++ rest)).take T.sizeof := by
        rw [whole, frame, List.append_assoc]
      _ = bigEndian T.sizeof (T.sizeof + payload.length) := by
        rw [List.take_append_of_le_length width.ge,
          List.take_of_length_le width.le]
  rw [announced, front, ofBigEndian_bigEndian small]

/-- The first frame of a stream is there only in part. -/
theorem parsed_incomplete {payload queue rest : List UInt8}
    (buffer : List UInt8) (fits : Fits T minLength maxLength payload)
    (leads : queue <+: frame T payload ++ rest)
    (short : queue.length < (frame T payload).length) :
    parsed T buffer minLength maxLength queue = (.less, buffer, queue) := by
  rw [length_frame] at short
  by_cases enough : T.sizeof ≤ queue.length
  · have length := announced_frame fits enough leads
    have admissible : ¬ (T.sizeof + payload.length <
        max minLength.toNat T.sizeof ∨
        T.sizeof + payload.length > maxLength.toNat) := by
      rw [not_or, Nat.not_lt, gt_iff_lt, Nat.not_lt]
      exact fits
    simp only [parsed, length, if_neg (Nat.not_lt.mpr enough),
      if_neg admissible, if_pos short]
  · simp only [parsed, if_pos (Nat.not_le.mp enough)]

/-- The first frame of a stream is there. -/
theorem parsed_frame {payload rest : List UInt8} (buffer : List UInt8)
    (fits : Fits T minLength maxLength payload) :
    parsed T buffer minLength maxLength (frame T payload ++ rest) =
      (.full, payload, rest) := by
  have whole : T.sizeof ≤ (frame T payload ++ rest).length := by
    rw [List.length_append, length_frame]
    omega
  have length := announced_frame fits whole (List.prefix_refl _)
  have admissible : ¬ (T.sizeof + payload.length <
      max minLength.toNat T.sizeof ∨
      T.sizeof + payload.length > maxLength.toNat) := by
    rw [not_or, Nat.not_lt, gt_iff_lt, Nat.not_lt]
    exact fits
  have complete : ¬ (frame T payload ++ rest).length <
      T.sizeof + payload.length := by
    rw [List.length_append, length_frame]
    omega
  have width := length_bigEndian T.sizeof (T.sizeof + payload.length)
  have behind : (frame T payload ++ rest).drop T.sizeof = payload ++ rest := by
    rw [frame, List.append_assoc, List.drop_append_of_le_length width.ge,
      List.drop_of_length_le width.le, List.nil_append]
  have remaining : (frame T payload ++ rest).drop
      (T.sizeof + payload.length) = rest := by
    rw [← List.drop_drop, behind, List.drop_left]
  simp only [parsed, length, if_neg (Nat.not_lt.mpr whole), if_neg admissible,
    if_neg complete, behind, remaining, Nat.add_sub_cancel_left,
    List.take_left]

def NetWorkBuffer.Operation.appended :
    NetWorkBuffer.Operation → Option (List UInt8)
  | .addBuffer data => some data
  | .addSharedBuffer _ _ data => some data
  | .fill _ _ data => some data
  | _ => none

/-- A chunk is appended, or `parseBuffer` returns. -/
inductive Event
  | append (call : NetWorkBuffer.Call) (data : List UInt8)
  | parse (type : PacketType) (out : List UInt8)

def Event.appended : Event → List UInt8
  | .append _ data => data
  | .parse _ _ => []

def Event.received : Event → Option (List UInt8)
  | .parse .full out => some out
  | _ => none

/-- The bytes that were appended. -/
def stream (events : List Event) : List UInt8 :=
  events.flatMap Event.appended

/-- The payloads that were parsed. -/
def received (events : List Event) : List (List UInt8) :=
  events.filterMap Event.received

inductive Exchange (T : LengthType) (minLength maxLength : T.Value) :
    NetWorkBuffer → Event → NetWorkBuffer → Prop
  | append {net call data answer next}
      (appends : call.operation.appended = some data)
      (permitted : NetWorkBuffer.Permitted net call)
      (run : call.run net = .ok (answer, next)) :
      Exchange T minLength maxLength net (.append call data) next
  | parse {net buffer type out next}
      (run : net.parseBuffer T buffer minLength maxLength =
        .ok (type, out, next)) :
      Exchange T minLength maxLength net (.parse type out) next

/-- A chunk that is copied has fewer than `2 ^ 32` bytes. -/
def ChunkRegular (net : NetWorkBuffer) : Event → Prop
  | .append call _ => NetWorkBuffer.Regular net call
  | .parse _ _ => True

theorem append_refines {net : NetWorkBuffer} {queue data : List UInt8}
    {call : NetWorkBuffer.Call} (refines : net.Refines queue)
    (appends : call.operation.appended = some data)
    (permitted : NetWorkBuffer.Permitted net call)
    (regular : NetWorkBuffer.Regular net call) :
    ∃ next, call.run net = .ok (.done, next) ∧
      next.Refines (queue ++ data) := by
  obtain ⟨next, run, refines'⟩ :=
    NetWorkBuffer.run_specified refines permitted regular
  obtain ⟨operation, garbage⟩ := call
  cases operation <;> cases appends <;> exact ⟨next, run, refines'⟩

/-- One parse of the front of a stream. -/
theorem parsed_stream {payloads : List (List UInt8)} {queue : List UInt8}
    (buffer : List UInt8)
    (fits : ∀ payload ∈ payloads, Fits T minLength maxLength payload)
    (leads : queue <+: frames T payloads) :
    (parsed T buffer minLength maxLength queue = (.less, buffer, queue) ∧
      (queue = frames T payloads → payloads = [])) ∨
    ∃ payload payloads' rest, payloads = payload :: payloads' ∧
      queue = frame T payload ++ rest ∧ rest <+: frames T payloads' ∧
      parsed T buffer minLength maxLength queue = (.full, payload, rest) := by
  cases payloads with
  | nil =>
      left
      refine ⟨?_, fun _ => rfl⟩
      rw [List.prefix_nil.mp leads]
      simp only [parsed, List.length_nil, if_pos T.sizeof_pos]
  | cons payload payloads =>
      have first := fits payload List.mem_cons_self
      rw [frames, List.flatMap_cons] at leads
      by_cases short : queue.length < (frame T payload).length
      · left
        refine ⟨parsed_incomplete buffer first leads short, ?_⟩
        intro whole
        rw [whole, frames, List.flatMap_cons, List.length_append] at short
        omega
      · right
        obtain ⟨rest, rfl⟩ := List.prefix_of_prefix_length_le
          (List.prefix_append _ _) leads (Nat.not_lt.mp short)
        refine ⟨payload, payloads, rest, rfl, rfl, ?_,
          parsed_frame buffer first⟩
        exact (List.prefix_append_right_inj _).mp leads

/-- What any run makes of the front of a stream: nothing is lost, doubled or
reordered. -/
theorem run_stream {net final : NetWorkBuffer} {events : List Event}
    {queue : List UInt8} {payloads : List (List UInt8)}
    (run : Run (Guarded ChunkRegular (Exchange T minLength maxLength))
      net events final)
    (refines : net.Refines queue)
    (fits : ∀ payload ∈ payloads, Fits T minLength maxLength payload)
    (leads : queue ++ stream events <+: frames T payloads) :
    ∃ queue' payloads', final.Refines queue' ∧
      payloads = received events ++ payloads' ∧
      queue ++ stream events = frames T (received events) ++ queue' ∧
      ∀ out, .parse .err out ∉ events := by
  induction run generalizing queue payloads with
  | nil net =>
      refine ⟨queue, payloads, refines, rfl, ?_, fun _ => List.not_mem_nil⟩
      exact List.append_nil queue
  | @cons _ event _ events _ step _ induction =>
      obtain ⟨regular, step⟩ := step
      cases step with
      | append appends permitted run =>
          obtain ⟨next, returned, refines'⟩ :=
            append_refines refines appends permitted regular
          rw [run] at returned
          cases returned
          rw [stream, List.flatMap_cons, ← List.append_assoc] at leads ⊢
          obtain ⟨queue', payloads', final, whole, kept, sound⟩ :=
            induction refines' fits leads
          refine ⟨queue', payloads', final, whole, kept, ?_⟩
          intro out member
          cases member with
          | tail _ later => exact sound out later
      | @parse buffer _ _ _ run =>
          obtain ⟨next, returned, refines', same⟩ :=
            @parseBuffer_refines T minLength maxLength _ _ buffer refines
          rw [run] at returned
          cases parsed_stream buffer fits
              ((List.prefix_append _ _).trans leads) with
          | inl partly =>
              rw [partly.1] at returned refines'
              cases returned
              obtain ⟨queue', payloads', final, whole, kept, sound⟩ :=
                induction refines' fits leads
              refine ⟨queue', payloads', final, whole, kept, ?_⟩
              intro out member
              cases member with
              | tail _ later => exact sound out later
          | inr complete =>
              obtain ⟨payload, payloads', rest, rfl, rfl, _, run'⟩ := complete
              rw [run'] at returned refines'
              cases returned
              change (frame T payload ++ rest) ++ stream events <+:
                frame T payload ++ frames T payloads' at leads
              rw [List.append_assoc] at leads
              obtain ⟨queue', later, final, whole, kept, sound⟩ :=
                induction refines'
                  (fun payload member =>
                    fits payload (List.mem_cons_of_mem _ member))
                  ((List.prefix_append_right_inj _).mp leads)
              refine ⟨queue', later, final, ?_, ?_, ?_⟩
              · rw [whole]
                rfl
              · change (frame T payload ++ rest) ++ stream events =
                  (frame T payload ++ frames T (received events)) ++ queue'
                rw [List.append_assoc, kept, List.append_assoc]
              · intro out member
                cases member with
                | tail _ later => exact sound out later

/-- However a stream of frames is cut into chunks, and whenever it is parsed in
between: the payloads come out in order and no error does, the rest of what was
appended is still in the buffer, and a parse that does not yield a frame
changes nothing.  When everything has been appended, such a parse means that
all payloads have been received. -/
theorem runs_parse_frames {payloads : List (List UInt8)}
    (fits : ∀ payload ∈ payloads, Fits T minLength maxLength payload)
    {events : List Event} {final : NetWorkBuffer}
    (run : Run (Guarded ChunkRegular (Exchange T minLength maxLength))
      {} events final)
    (fed : stream events <+: frames T payloads) :
    received events <+: payloads ∧
    (∀ out, .parse .err out ∉ events) ∧
    (∃ queue, final.Reads queue ∧
      stream events = frames T (received events) ++ queue) ∧
    (∀ buffer, ∃ type out next,
      final.parseBuffer T buffer minLength maxLength =
        .ok (type, out, next) ∧
      (type = .full ∨ type = .less ∧ next = final ∧
        (stream events = frames T payloads →
          received events = payloads))) ∧
    (∀ call data, call.operation.appended = some data →
      NetWorkBuffer.Permitted final call →
      NetWorkBuffer.Regular final call →
      ∃ next, call.run final = .ok (.done, next)) := by
  obtain ⟨queue, payloads', refines, whole, kept, sound⟩ :=
    run_stream run NetWorkBuffer.refines_empty fits fed
  rw [List.nil_append] at kept
  have later : frames T payloads =
      frames T (received events) ++ frames T payloads' := by
    rw [whole, frames, List.flatMap_append]
    rfl
  have leads : queue <+: frames T payloads' := by
    rw [kept, later] at fed
    exact (List.prefix_append_right_inj _).mp fed
  refine ⟨⟨payloads', whole.symm⟩, sound, ⟨queue, refines.reads, kept⟩, ?_, ?_⟩
  · intro buffer
    obtain ⟨next, returned, _, same⟩ :=
      @parseBuffer_refines T minLength maxLength _ _ buffer refines
    refine ⟨_, _, next, returned, ?_⟩
    cases parsed_stream buffer
        (fun payload member => fits payload (by
          rw [whole]
          exact List.mem_append_right _ member)) leads with
    | inl partly =>
        right
        rw [partly.1] at same ⊢
        refine ⟨rfl, same PacketType.noConfusion, ?_⟩
        intro all
        rw [kept, later] at all
        have none := partly.2 (List.append_cancel_left all)
        rw [whole, none, List.append_nil]
    | inr complete =>
        left
        obtain ⟨payload, _, rest, _, _, _, run'⟩ := complete
        rw [run']
  · intro call data appends permitted regular
    obtain ⟨next, returned, _⟩ :=
      append_refines refines appends permitted regular
    exact ⟨next, returned⟩

private theorem exists_append {net : NetWorkBuffer} {queue data : List UInt8}
    (refines : net.Refines queue) (small : data.length < 2 ^ 32) :
    ∃ next, Guarded ChunkRegular (Exchange T minLength maxLength) net
        (.append ⟨.addBuffer data, fun _ => 0⟩ data) next ∧
      next.Refines (queue ++ data) := by
  obtain ⟨next, run, refines'⟩ := @append_refines net queue data
    ⟨.addBuffer data, fun _ => 0⟩ refines rfl trivial small
  exact ⟨next, ⟨small, .append rfl trivial run⟩, refines'⟩

private theorem exists_parse {net : NetWorkBuffer} {queue : List UInt8}
    (refines : net.Refines queue) :
    ∃ next, Guarded ChunkRegular (Exchange T minLength maxLength) net
        (.parse (parsed T [] minLength maxLength queue).1
          (parsed T [] minLength maxLength queue).2.1) next ∧
      next.Refines (parsed T [] minLength maxLength queue).2.2 := by
  obtain ⟨next, run, refines', _⟩ :=
    @parseBuffer_refines T minLength maxLength _ _ [] refines
  exact ⟨next, ⟨trivial, .parse run⟩, refines'⟩

/-- A frame of two bytes in two chunks, parsed after each. -/
theorem runs_parse_frames_cut :
    ∃ events final,
      Run (Guarded ChunkRegular (Exchange .uint8 0 10)) {} events final ∧
      received events <+: [[7]] ∧ received events = [[7]] := by
  obtain ⟨_, cut, refines⟩ := @exists_append .uint8 0 10 _ _ [2]
    NetWorkBuffer.refines_empty (by decide)
  obtain ⟨_, less, refines⟩ := @exists_parse .uint8 0 10 _ _ refines
  obtain ⟨_, rest, refines⟩ := @exists_append .uint8 0 10 _ _ [7] refines
    (by decide)
  obtain ⟨final, full, refines⟩ := @exists_parse .uint8 0 10 _ _ refines
  have run := Run.cons cut (.cons less (.cons rest (.cons full (.nil final))))
  have parsing := @runs_parse_frames .uint8 0 10 [[7]]
    (by
      intro payload member
      rw [List.mem_singleton.mp member]
      exact ⟨by decide, by decide⟩)
    _ _ run (by decide)
  exact ⟨_, final, run, parsing.1, by decide⟩

/-- A chunk of which no byte arrives is parsed as a frame of length zero. -/
private theorem parseBuffer_truncated {data : List UInt8}
    (size : data.length = 2 ^ 32) (maxLength : LengthType.uint32.Value) :
    ∃ final, Run (Exchange .uint32 0 maxLength) {}
      [.append ⟨.addBuffer data, fun _ => 0⟩ data, .parse .err []] final := by
  have nonempty : data ≠ [] := by
    rw [← List.length_pos_iff, size]
    exact Nat.two_pow_pos 32
  obtain ⟨net, added, length, segments⟩ :=
    NetWorkBuffer.addBuffer_truncates (fun _ => 0) NetWorkBuffer.refines_empty
      nonempty
  rw [size, List.length_nil, Nat.zero_add] at length
  rw [size, Nat.mod_self, List.take_zero, List.append_nil] at segments
  have copied := NetWorkBuffer.getBuffersFrom_eq segments 4
  have peeked : net.getValue .uint32 = .ok 0 := by
    simp only [NetWorkBuffer.getValue, NetWorkBuffer.getHeader,
      NetWorkBuffer.copyResized, NetWorkBuffer.copyBuffers, assert, length,
      LengthType.sizeof, copied, pure_ok, List.take_nil]
    rfl
  have run : (NetWorkBuffer.Call.mk (.addBuffer data) fun _ => 0).run {} =
      .ok (.done, net) := by
    simp only [NetWorkBuffer.Call.run, added, ok_bind, pure_ok]
  have parse : net.parseBuffer .uint32 [] 0 maxLength =
      .ok (.err, [], net) := by
    simp only [NetWorkBuffer.parseBuffer, length, peeked, ok_bind, pure_ok]
    rfl
  exact ⟨net, .cons (.append rfl trivial run) (.cons (.parse parse) (.nil _))⟩

/-- Two frames of two gigabytes each, appended as one chunk. -/
theorem parseBuffer_fourGigabytes :
    ∃ payloads final,
      (∀ payload ∈ payloads,
        Fits .uint32 0 (BitVec.ofNat 32 (2 ^ 31)) payload) ∧
      Run (Exchange .uint32 0 (BitVec.ofNat 32 (2 ^ 31))) {}
        [.append ⟨.addBuffer (frames .uint32 payloads), fun _ => 0⟩
          (frames .uint32 payloads), .parse .err []] final := by
  obtain ⟨payload, size⟩ : ∃ payload : List UInt8,
      payload.length = 2 ^ 31 - 4 := ⟨List.replicate _ 0, List.length_replicate⟩
  have whole : (frames .uint32 [payload, payload]).length = 2 ^ 32 := by
    simp only [frames, List.flatMap_cons, List.flatMap_nil, List.length_append,
      length_frame, size, LengthType.sizeof, List.length_nil]
    norm_num
  obtain ⟨final, run⟩ :=
    parseBuffer_truncated whole (BitVec.ofNat 32 (2 ^ 31))
  refine ⟨[payload, payload], final, ?_, run⟩
  intro other member
  have same : other = payload := by simpa using member
  rw [same]
  constructor
  · rw [size]
    decide
  · rw [size]
    decide

end TarsCpp.NetworkBuffer
