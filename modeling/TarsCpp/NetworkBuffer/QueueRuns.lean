import TarsCpp.NetworkBuffer.QueueRefinement

/-!
# Runs of operations on the network buffer

Any sequence of operations on a `TC_NetWorkBuffer`, next to the plain queue of
bytes that it stands for.
-/

namespace TarsCpp.NetworkBuffer

open TransitionRun

namespace NetWorkBuffer

inductive Operation
  | addBuffer (data : List UInt8)
  /-- `addBuffer` of a chunk `buff` that holds `data`. -/
  | addSharedBuffer (id : BufferId) (buff : Buffer) (data : List UInt8)
  /-- `getOrCreateBuffer`, a write of `data`, `addWriteIdx`, `addLength`. -/
  | fill (minCapacity maxCapacity : Nat) (data : List UInt8)
  | moveHeader (len : Nat)
  | getHeader (len : Nat)
  | getBuffers
  | mergeBuffers
  | clearBuffers

structure Call where
  operation : Operation
  garbage : Garbage

inductive Answer
  | done
  | moved (success : Bool)
  | header (found : Option (List UInt8))
  | bytes (content : List UInt8)
deriving DecidableEq, Repr

def Call.run (call : Call) (net : NetWorkBuffer) :
    Except Failure (Answer × NetWorkBuffer) :=
  match call.operation with
  | .addBuffer data => do
      let net ← net.addBuffer call.garbage data
      pure (.done, net)
  | .addSharedBuffer id buff _ =>
      .ok (.done, (net.adopt id buff).addSharedBuffer id)
  | .fill minCapacity maxCapacity data => do
      let (id, net) ←
        net.getOrCreateBuffer call.garbage minCapacity maxCapacity
      let buff ← (net.buffers id).write data
      pure (.done, (net.put id buff).addLength data.length)
  | .moveHeader len => do
      let (success, net) ← net.moveHeader len
      pure (.moved success, net)
  | .getHeader len => do
      let found ← net.getHeader len
      pure (.header found, net)
  | .getBuffers => do
      let content ← net.getBuffers
      pure (.bytes content, net)
  | .mergeBuffers => do
      let (head, net) ← net.mergeBuffers call.garbage
      match head with
      | none => pure (.bytes [], net)
      | some id => do
          let content ← (net.buffers id).content
          pure (.bytes content, net)
  | .clearBuffers => .ok (.done, net.clearBuffers)

/-- The plain queue: what an operation answers, and what it leaves. -/
def specified (queue : List UInt8) : Operation → Answer × List UInt8
  | .addBuffer data => (.done, queue ++ data)
  | .addSharedBuffer _ _ data => (.done, queue ++ data)
  | .fill _ _ data => (.done, queue ++ data)
  | .moveHeader len =>
      if len ≤ queue.length then
        (.moved true, queue.drop len)
      else
        (.moved false, queue)
  | .getHeader len =>
      (.header (if len ≤ queue.length then some (queue.take len) else none),
        queue)
  | .getBuffers => (.bytes queue, queue)
  | .mergeBuffers => (.bytes queue, queue)
  | .clearBuffers => (.done, [])

structure Tracked where
  net : NetWorkBuffer := {}
  queue : List UInt8 := []

/-- What a caller has to see to: only other, non-empty chunks are added, and a
chunk is filled with no more than it has room for. -/
def Permitted (net : NetWorkBuffer) (call : Call) : Prop :=
  match call.operation with
  | .addSharedBuffer id buff data =>
      id ∉ net.bufferList ∧ Represents buff data ∧ data ≠ []
  | .fill minCapacity maxCapacity data =>
      minCapacity ≤ maxCapacity ∧ ∀ id next,
        net.getOrCreateBuffer call.garbage minCapacity maxCapacity =
          .ok (id, next) → data.length ≤ (next.buffers id).left
  | _ => True

/-- What the code copies or skips at once is counted in a `uint32_t`. -/
def Regular (net : NetWorkBuffer) (call : Call) : Prop :=
  match call.operation with
  | .addBuffer data => data.length < 2 ^ 32
  | .fill _ _ data => data.length < 2 ^ 32
  | .moveHeader len =>
      len ≤ net.length → partialDrop net.chunkLengths len < 2 ^ 32
  | .mergeBuffers => 1 < net.bufferList.length → net.length < 2 ^ 32
  | _ => True

/-- A step of the program, in a state in which it is permitted; the queue
follows the specification. -/
inductive Step : Tracked → Call → Tracked → Prop
  | returns {state call answer next}
      (permitted : Permitted state.net call)
      (run : call.run state.net = .ok (answer, next)) :
      Step state call ⟨next, (specified state.queue call.operation).2⟩

def RegularIn (state : Tracked) (call : Call) : Prop :=
  Regular state.net call

def Tracked.Valid (state : Tracked) : Prop :=
  state.net.Refines state.queue

theorem run_specified {net : NetWorkBuffer} {queue : List UInt8} {call : Call}
    (refines : net.Refines queue) (permitted : Permitted net call)
    (regular : Regular net call) :
    ∃ next, call.run net = .ok ((specified queue call.operation).1, next) ∧
      next.Refines (specified queue call.operation).2 := by
  obtain ⟨operation, garbage⟩ := call
  cases operation with
  | addBuffer data =>
      obtain ⟨next, run, refines'⟩ := addBuffer_refines garbage refines regular
      refine ⟨next, ?_, refines'⟩
      simp only [Call.run, run, ok_bind, pure_ok, specified]
  | addSharedBuffer id buff data =>
      obtain ⟨elsewhere, represents, nonempty⟩ := permitted
      refine ⟨_, rfl, addSharedBuffer_refines refines elsewhere ?_ nonempty⟩
      apply represents.holds
      cases represents with
      | null capacity => exact absurd rfl nonempty
      | parts consumed queue spare => rfl
  | fill minCapacity maxCapacity data =>
      obtain ⟨ordered, room⟩ := permitted
      obtain ⟨id, offered, got, refines', last, _⟩ :=
        getOrCreateBuffer_refines garbage ordered refines
      obtain ⟨buff, written, refines''⟩ :=
        write_refines refines' ⟨last, room id offered got⟩ regular
      refine ⟨_, ?_, refines''⟩
      simp only [Call.run, got, written, ok_bind, pure_ok, specified]
      rfl
  | moveHeader len =>
      obtain ⟨next, run, refines'⟩ := moveHeader_refines refines regular
      refine ⟨next, ?_, ?_⟩
      · simp only [Call.run, run, ok_bind, pure_ok, specified]
        split_ifs with held <;> simp [held]
      · simp only [specified]
        split_ifs at refines' ⊢ <;> exact refines'
  | getHeader len =>
      refine ⟨net, ?_, refines⟩
      simp only [Call.run, getHeader_eq refines, ok_bind, pure_ok, specified]
  | getBuffers =>
      refine ⟨net, ?_, refines⟩
      simp only [Call.run, getBuffers_eq refines, ok_bind, pure_ok, specified]
  | mergeBuffers =>
      obtain ⟨head, next, run, refines', merged⟩ :=
        mergeBuffers_refines garbage refines regular
      refine ⟨next, ?_, refines'⟩
      simp only [Call.run, run, ok_bind, specified]
      cases head with
      | none =>
          rw [show queue = [] from merged]
          rfl
      | some id =>
          have content := (Holds.represents merged).content_eq
          simp only [content, ok_bind, pure_ok]
  | clearBuffers => exact ⟨_, rfl, clearBuffers_refines refines⟩

theorem Step.valid {state next : Tracked} {call : Call} (valid : state.Valid)
    (step : Guarded RegularIn Step state call next) : next.Valid := by
  obtain ⟨regular, step⟩ := step
  cases step with
  | returns permitted run =>
      obtain ⟨net, returned, refines⟩ := run_specified valid permitted regular
      rw [run] at returned
      cases returned
      exact refines

/-- The chunks of the list read as `queue`, and their lengths add up. -/
def Reads (net : NetWorkBuffer) (queue : List UInt8) : Prop :=
  (∃ parts, net.bufferList.mapM (fun id => (net.buffers id).content) =
      .ok parts ∧ parts.flatten = queue) ∧
    net.length = net.chunkLengths.sum

theorem Refines.reads {net : NetWorkBuffer} {queue : List UInt8}
    (refines : net.Refines queue) : net.Reads queue := by
  constructor
  · apply refines.segments.mapM_eq
    intro id part held
    exact (Holds.represents held).content_eq
  · rw [refines.length]
    symm
    apply refines.segments.sum_eq_length
    intro id part held
    exact Holds.length_eq held

/-- In every state that regular operations lead to, the buffer reads as the
queue, and a further one answers and changes it as the queue does. -/
theorem runs_as_fifo {calls : List Call} {state : Tracked}
    (run : Run (Guarded RegularIn Step) {} calls state) :
    state.net.Reads state.queue ∧
    ∀ call, Permitted state.net call → Regular state.net call →
      ∃ next, call.run state.net =
          .ok ((specified state.queue call.operation).1, next) ∧
        next.Reads (specified state.queue call.operation).2 := by
  have valid : state.Valid :=
    @Run.preserves _ _ _ Tracked.Valid Step.valid _ _ _ run refines_empty
  refine ⟨valid.reads, ?_⟩
  intro call permitted regular
  obtain ⟨next, returned, refines⟩ := run_specified valid permitted regular
  exact ⟨next, returned, refines.reads⟩

private theorem exists_step {state : Tracked} {call : Call}
    (valid : state.Valid) (permitted : Permitted state.net call)
    (regular : Regular state.net call) :
    ∃ next, Guarded RegularIn Step state call next ∧ next.Valid ∧
      next.queue = (specified state.queue call.operation).2 := by
  obtain ⟨net, run, refines⟩ := run_specified valid permitted regular
  exact ⟨_, ⟨regular, .returns permitted run⟩, refines, rfl⟩

theorem runs_as_fifo_partly_moved :
    ∃ state, Run (Guarded RegularIn Step) {}
        [⟨.addBuffer [1, 2, 3], fun _ => 0⟩, ⟨.moveHeader 1, fun _ => 0⟩]
        state ∧
      state.net.Reads [2, 3] := by
  obtain ⟨added, step, valid, queue⟩ :=
    @exists_step {} ⟨.addBuffer [1, 2, 3], fun _ => 0⟩ refines_empty trivial
      (show 3 < 2 ^ 32 by decide)
  obtain ⟨moved, step', _, queue'⟩ :=
    @exists_step added ⟨.moveHeader 1, fun _ => 0⟩ valid trivial (by
      intro _
      exact Nat.lt_of_le_of_lt (partialDrop_le _ 1) (by decide))
  have run := Run.cons step (.cons step' (.nil moved))
  have reads := (runs_as_fifo run).1
  rw [queue', queue] at reads
  exact ⟨moved, run, reads⟩

/-- Four gigabytes are counted, and none of them is there. -/
theorem addBuffer_fourGigabytes :
    ∃ state, Run Step {}
        [⟨.addBuffer (List.replicate (2 ^ 32) 0), fun _ => 0⟩] state ∧
      state.queue = List.replicate (2 ^ 32) 0 ∧
      state.net.length = 2 ^ 32 ∧ state.net.chunkLengths.sum = 0 ∧
      ¬ state.net.Reads state.queue := by
  have size : (List.replicate (2 ^ 32) (0 : UInt8)).length = 2 ^ 32 :=
    List.length_replicate
  have nonempty : List.replicate (2 ^ 32) (0 : UInt8) ≠ [] := by
    rw [← List.length_pos_iff, size]
    exact Nat.two_pow_pos 32
  obtain ⟨net, added, length, segments⟩ :=
    addBuffer_truncates (fun _ => 0) refines_empty nonempty
  rw [size, List.length_nil, Nat.zero_add] at length
  rw [size, Nat.mod_self, List.take_zero, List.append_nil] at segments
  have sum : net.chunkLengths.sum = 0 :=
    segments.sum_eq_length fun held => Holds.length_eq held
  have run : (Call.mk (.addBuffer (List.replicate (2 ^ 32) 0))
      fun _ => 0).run {} = .ok (.done, net) := by
    simp only [Call.run, added, ok_bind, pure_ok]
  refine ⟨_, .cons (.returns trivial run) (.nil _), ?_, length, sum, ?_⟩
  · exact List.nil_append _
  · rintro ⟨_, counted⟩
    rw [sum, length] at counted
    exact absurd counted (by decide)

end NetWorkBuffer

end TarsCpp.NetworkBuffer
