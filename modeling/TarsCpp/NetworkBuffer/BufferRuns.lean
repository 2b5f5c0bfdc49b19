import TarsCpp.TransitionRun
import TarsCpp.NetworkBuffer.Buffer

/-!
# Runs of operations on one chunk

Any sequence of operations on one `TC_NetWorkBuffer::Buffer`, next to the byte
string that the buffer should hold.
-/

namespace TarsCpp.NetworkBuffer

open TransitionRun

namespace Buffer

inductive Operation
  | alloc (len : Nat)
  | addBuffer (data : List UInt8)
  | setBuffer (data : List UInt8)
  | replaceBuffer (data : List UInt8)
  | expansion (len : Nat)
  | compact
  | clear
  | addReadIdx (len : UInt32)
  | addWriteIdx (len : UInt32)
deriving DecidableEq, Repr

/-- An operation, and what its allocation contains. -/
structure Call where
  operation : Operation
  garbage : Garbage

def Call.run (call : Call) (buff : Buffer) : Except Failure Buffer :=
  match call.operation with
  | .alloc len => .ok (buff.alloc call.garbage len)
  | .addBuffer data => buff.addBuffer call.garbage data
  | .setBuffer data => buff.setBuffer call.garbage data
  | .replaceBuffer data => .ok (buff.replaceBuffer data)
  | .expansion len => buff.expansion call.garbage len
  | .compact => buff.compact call.garbage
  | .clear => .ok buff.clear
  | .addReadIdx len => buff.addReadIdx len
  | .addWriteIdx len => buff.addWriteIdx len

/-- A buffer together with the byte string that it should hold. -/
structure Tracked where
  buff : Buffer := {}
  queue : List UInt8 := []

def Tracked.Valid (state : Tracked) : Prop :=
  Represents state.buff state.queue

/-- The byte string after an operation; `none` if it should be refused. -/
def Tracked.specified (state : Tracked) : Operation → Option (List UInt8)
  | .alloc _ => some []
  | .addBuffer data => some (state.queue ++ data)
  | .setBuffer data => some data
  | .replaceBuffer data => some data
  | .expansion _ => some state.queue
  | .compact => some state.queue
  | .clear => some []
  | .addReadIdx len =>
      if len.toNat ≤ state.queue.length then
        some (state.queue.drop len.toNat)
      else
        none
  | .addWriteIdx len =>
      if len.toNat ≤ state.buff.left then
        some (state.queue ++ state.buff.writable.take len.toNat)
      else
        none

/-- A step of the program; the byte string follows the specification. -/
inductive Step : Tracked → Call → Tracked → Prop
  | returns {state call next} (run : call.run state.buff = .ok next) :
      Step state call
        ⟨next, (state.specified call.operation).getD state.queue⟩
  | throws {state call what}
      (run : call.run state.buff = .error (.thrown what)) :
      Step state call state

/-- `addBuffer` need not move the queue from behind consumed bytes to a larger
block, and `addWriteIdx` does not publish bytes of a block that is `NULL`. -/
def Regular (state : Tracked) (call : Call) : Prop :=
  match call.operation with
  | .addBuffer data =>
      state.buff.readIdx = 0 ∨
        data.length + state.buff.length ≤ state.buff.capacity
  | .addWriteIdx len =>
      state.buff.block.isSome ∨ len = 0 ∨ state.buff.left < len.toNat
  | _ => True

/-- The outcome of one operation, in terms of the byte string. -/
theorem run_specified {state : Tracked} {call : Call}
    (represents : state.Valid)
    (regular : Regular state call) :
    match state.specified call.operation with
    | some queue =>
        ∃ next, call.run state.buff = .ok next ∧ Represents next queue
    | none => ∃ what, call.run state.buff = .error (.thrown what) := by
  obtain ⟨operation, garbage⟩ := call
  cases operation with
  | alloc len => exact ⟨_, rfl, (alloc_vacant garbage len represents).represents⟩
  | addBuffer data => exact addBuffer_represents garbage data represents regular
  | setBuffer data => exact setBuffer_represents garbage data represents
  | replaceBuffer data => exact ⟨_, rfl, replaceBuffer_represents data _⟩
  | expansion len => exact expansion_represents garbage len represents
  | compact =>
      obtain ⟨next, run, moved, _⟩ := compact_compact garbage represents
      exact ⟨next, run, moved.represents⟩
  | clear => exact ⟨_, rfl, clear_represents represents⟩
  | addReadIdx len =>
      simp only [Tracked.specified]
      by_cases held : len.toNat ≤ state.queue.length
      · rw [if_pos held]
        exact addReadIdx_represents represents held
      · rw [if_neg held]
        exact addReadIdx_overflow represents (Nat.not_le.mp held)
  | addWriteIdx len =>
      simp only [Tracked.specified]
      by_cases within : len.toNat ≤ state.buff.left
      · rw [if_pos within]
        have overflow : ¬ state.buff.left < len.toNat := Nat.not_lt.mpr within
        simp only [Regular, overflow, or_false] at regular
        exact addWriteIdx_represents represents within regular
      · rw [if_neg within]
        exact addWriteIdx_overflow (Nat.not_le.mp within)

/-- A byte string is expected, and what stands in the buffer cannot be read. -/
theorem run_irregular {state : Tracked} {call : Call}
    (represents : state.Valid) (irregular : ¬ Regular state call) :
    ∃ queue next, state.specified call.operation = some queue ∧
      call.run state.buff = .ok next ∧
      next.content = .error .invalidAccess := by
  obtain ⟨buff, queue⟩ := state
  obtain ⟨operation, garbage⟩ := call
  change Represents buff queue at represents
  cases operation with
  | addBuffer data =>
      simp only [Regular, not_or] at irregular
      obtain ⟨read, large⟩ := irregular
      cases represents with
      | null capacity => exact absurd rfl read
      | parts consumed queue spare =>
          have counted : consumed ≠ [] := fun front => read (by rw [front]; rfl)
          simp only [parts_length, parts_capacity, Nat.not_le] at large
          refine ⟨_, _, rfl, addBuffer_overruns garbage data consumed queue
            spare counted large, ?_⟩
          have positive := List.length_pos_iff.mpr counted
          have beyond : ¬ consumed.length + queue.length + data.length ≤
              (queue ++ data).length := by
            rw [List.length_append]
            omega
          have live : ¬ consumed.length + queue.length + data.length = 0 := by
            omega
          simp only [Buffer.content, Buffer.length, load, Nat.sub_zero,
            Nat.zero_add, if_neg live, if_neg beyond]
  | addWriteIdx len =>
      simp only [Regular, not_or, Nat.not_lt] at irregular
      obtain ⟨unallocated, positive, within⟩ := irregular
      cases represents with
      | null capacity =>
          have live : len.toNat ≠ 0 := fun none =>
            positive (UInt32.toNat_inj.mp none)
          refine ⟨_, _, if_pos within, if_neg (Nat.not_lt.mpr within), ?_⟩
          simp [Buffer.content, Buffer.length, load, live]
      | parts consumed queue spare => exact absurd rfl unallocated
  | _ => exact absurd trivial irregular

theorem Step.valid {state next : Tracked} {call : Call}
    (represents : state.Valid)
    (step : Guarded Regular Step state call next) : next.Valid := by
  obtain ⟨regular, step⟩ := step
  have outcome := run_specified represents regular
  cases step with
  | throws run => exact represents
  | returns run =>
      cases specified : state.specified call.operation with
      | none =>
          rw [specified] at outcome
          obtain ⟨what, refused⟩ := outcome
          rw [run] at refused
          cases refused
      | some queue =>
          rw [specified] at outcome
          obtain ⟨next, returned, represents'⟩ := outcome
          rw [run] at returned
          cases returned
          exact represents'

/-- The next operation has the specified effect. -/
def Tracked.Meets (state : Tracked) (call : Call) : Prop :=
  match state.specified call.operation with
  | some queue =>
      ∃ next, call.run state.buff = .ok next ∧ next.content = .ok queue
  | none => ∃ what, call.run state.buff = .error (.thrown what)

theorem meets_iff {state : Tracked} {call : Call} (represents : state.Valid) :
    state.Meets call ↔ Regular state call := by
  constructor
  · intro meets
    by_contra irregular
    obtain ⟨queue, next, specified, run, unreadable⟩ :=
      run_irregular represents irregular
    simp only [Tracked.Meets, specified] at meets
    obtain ⟨next', returned, content⟩ := meets
    rw [run] at returned
    cases returned
    rw [unreadable] at content
    cases content
  · intro regular
    have outcome := run_specified represents regular
    unfold Tracked.Meets
    cases specified : state.specified call.operation with
    | none =>
        rw [specified] at outcome
        exact outcome
    | some queue =>
        rw [specified] at outcome
        obtain ⟨next, returned, represents'⟩ := outcome
        exact ⟨next, returned, represents'.content_eq⟩

/-- After any sequence of regular operations on a new buffer its indices are in
order, the capacity is what is allocated, the content is the specified byte
string, and exactly the regular operations have the specified effect. -/
theorem runs_refine {calls : List Call} {state : Tracked}
    (run : Run (Guarded Regular Step) {} calls state) :
    state.buff.readIdx ≤ state.buff.writeIdx ∧
    state.buff.writeIdx ≤ state.buff.capacity ∧
    (∀ bytes, state.buff.block = some bytes →
      state.buff.capacity = bytes.length) ∧
    state.buff.content = .ok state.queue ∧
    ∀ call, state.Meets call ↔ Regular state call := by
  have represents : state.Valid :=
    @Run.preserves _ _ _ Tracked.Valid Step.valid _ _ _ run (.null _)
  obtain ⟨order, within, allocated⟩ := represents.bounds
  exact ⟨order, within, allocated, represents.content_eq,
    fun _ => meets_iff represents⟩

private def consuming : List Call :=
  [⟨.addBuffer [1, 2, 3, 4], fun _ => 0⟩, ⟨.addReadIdx 2, fun _ => 0⟩,
    ⟨.addBuffer [5], fun _ => 0⟩]

theorem runs_refine_consuming :
    ∃ state, Run (Guarded Regular Step) {} consuming state ∧
      state.queue = [3, 4, 5] ∧ state.buff.content = .ok [3, 4, 5] := by
  have run : Run (Guarded Regular Step) {} consuming
      ⟨⟨some [3, 4, 5, 4], 0, 3, 4⟩, [3, 4, 5]⟩ := by
    apply Run.cons ⟨.inl rfl, .returns rfl⟩
    apply Run.cons ⟨trivial, .returns rfl⟩
    apply Run.cons ⟨.inr (by decide), .returns rfl⟩
    exact .nil _
  exact ⟨_, run, rfl, (runs_refine run).2.2.2.1⟩

/-- Consumed bytes in front of a queue that moves to a larger block: two bytes
too many are counted. -/
theorem addBuffer_consumed :
    ∃ state, Run Step {}
        [⟨.addBuffer [1, 2, 3, 4], fun _ => 0⟩, ⟨.addReadIdx 2, fun _ => 0⟩,
          ⟨.addBuffer [5, 6, 7, 8, 9, 10], fun _ => 0⟩] state ∧
      state.queue = [3, 4, 5, 6, 7, 8, 9, 10] ∧
      state.buff = ⟨some [3, 4, 5, 6, 7, 8, 9, 10], 0, 10, 10⟩ ∧
      state.buff.content = .error .invalidAccess := by
  refine ⟨⟨⟨some [3, 4, 5, 6, 7, 8, 9, 10], 0, 10, 10⟩,
    [3, 4, 5, 6, 7, 8, 9, 10]⟩, ?_, rfl, rfl, rfl⟩
  apply Run.cons (.returns rfl)
  apply Run.cons (.returns rfl)
  apply Run.cons (.returns rfl)
  exact .nil _

end Buffer

end TarsCpp.NetworkBuffer
