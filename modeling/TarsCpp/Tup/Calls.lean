import TarsCpp.Tup.HostileInput

/-!
# Sequences of decoding calls

A caller that has got its input from anywhere makes any calls in any order,
and may catch an exception and go on.
-/

namespace TarsCpp.Tup

open PrefixDecoding

inductive Call
  | read (type : WireType) (target : Value) (tag : UInt8) (isRequire : Bool)
  | readUnknown (tag : UInt8)
  | skipField (type : UInt8)
  | skipHeadAndField
  | skipToTag (tag : UInt8)
  | skipToStructEnd

def Call.perform : Call → Decode Unit
  | .read type target tag isRequire => do
      let _ ← Tup.read type target tag isRequire
      pure ()
  | .readUnknown tag => do
      let _ ← Tup.readUnknown tag
      pure ()
  | .skipField type => Tup.skipField type
  | .skipHeadAndField => Tup.skipHeadAndField
  | .skipToTag tag => do
      let _ ← Tup.skipToTag tag
      pure ()
  | .skipToStructEnd => Tup.skipToStructEnd

/-- How the calls of a sequence end; the caller goes on after a fault, with
the cursor where the fault left it. -/
def outcomes : List Call → BufferReader → List (Option Fault)
  | [], _ => []
  | call :: calls, stream =>
      match call.perform.run stream with
      | .ok _ after => none :: outcomes calls after
      | .error fault after => some fault :: outcomes calls after

/-- The last index that the cursor can have reached. -/
def horizon (stream : BufferReader) : Nat :=
  max stream.cur (stream.size + 2 ^ 32)

private theorem skipFieldWith_fixed {fuel : Nat} {type : HeadType}
    (fixed : type.Fixed) :
    ∃ len, len ≤ 8 ∧ skipFieldWith (fuel + 1) type = readHeadSkip len := by
  cases type with
  | char => exact ⟨1, by decide, by rw [skipFieldWith]⟩
  | short => exact ⟨2, by decide, by rw [skipFieldWith]⟩
  | int32 => exact ⟨4, by decide, by rw [skipFieldWith]⟩
  | int64 => exact ⟨8, by decide, by rw [skipFieldWith]⟩
  | float => exact ⟨4, by decide, by rw [skipFieldWith]⟩
  | double => exact ⟨8, by decide, by rw [skipFieldWith]⟩
  | _ => exact fixed.elim

private theorem skipField_fixed_run (stream : BufferReader) {type : UInt8}
    (fixed : (HeadType.ofCode type).Fixed) :
    ∃ len, len ≤ 8 ∧
      (skipField type).run stream = (readHeadSkip len).run stream := by
  obtain ⟨len, small, same⟩ :=
    @skipFieldWith_fixed (2 * stream.size + 3) _ fixed
  refine ⟨len, small, ?_⟩
  rw [skipField, EStateM.run_bind, EStateM.run_get, ← same]
  rfl

private theorem safe_return {stream : BufferReader} :
    Safe (pure ()) stream (fun _ _ => True) := Keeps.pure trivial

/-- One call only throws, and moves the horizon by at most a word. -/
private theorem perform_safe (call : Call) {stream : BufferReader}
    (roomy : Roomy stream) :
    Satisfies call.perform stream
      (fun _ after => after.size = stream.size ∧
        horizon after ≤ horizon stream + 8)
      (fun fault after => (after.size = stream.size ∧
        horizon after ≤ horizon stream + 8) ∧ Thrown fault) := by
  have near : ∀ after, Reaches stream after →
      after.size = stream.size ∧ horizon after ≤ horizon stream + 8 := by
    intro after reached
    have size := reached.size
    have bounded := reached.bounded
    unfold horizon
    omega
  have safely : ∀ {decoder : Decode Unit} {post : Unit → BufferReader → Prop},
      Safe decoder stream post → Satisfies decoder stream
        (fun _ after => after.size = stream.size ∧
          horizon after ≤ horizon stream + 8)
        (fun fault after => (after.size = stream.size ∧
          horizon after ≤ horizon stream + 8) ∧ Thrown fault) := by
    intro decoder post safe
    exact Satisfies.mono safe (fun _ after holds => near after holds.1)
      (fun _ after faulty => ⟨near after faulty.1, faulty.2⟩)
  cases call with
  | read type target tag isRequire =>
      exact safely ((safe_read type target tag isRequire roomy).bind
        fun _ _ _ _ => safe_return)
  | readUnknown tag =>
      exact safely ((safe_readUnknown roomy tag).bind
        fun _ _ _ _ => safe_return)
  | skipField type =>
      by_cases fixed : (HeadType.ofCode type).Fixed
      · obtain ⟨len, small, run⟩ := skipField_fixed_run stream fixed
        change Satisfies (skipField type) stream _ _
        unfold Satisfies
        rw [run]
        have exactly : sizeT (stream.cur + len) = stream.cur + len := by
          unfold Roomy at roomy
          exact Nat.mod_eq_of_lt (by omega)
        refine ⟨rfl, ?_⟩
        unfold horizon
        rw [BufferReader.moveTo_cur, BufferReader.moveTo_size, exactly]
        omega
      · exact safely (safe_skipField roomy (.inr fixed))
  | skipHeadAndField => exact safely (safe_skipHeadAndField roomy)
  | skipToTag tag =>
      exact safely ((safe_skipToTag roomy tag).bind
        fun _ _ _ _ => safe_return)
  | skipToStructEnd => exact safely (safe_skipToStructEnd roomy)

private theorem outcomes_thrown_of_room (calls : List Call) :
    ∀ stream : BufferReader,
      horizon stream + 8 * (calls.length + 1) ≤ sizeLimit →
      ∀ fault, some fault ∈ outcomes calls stream → Thrown fault := by
  induction calls with
  | nil =>
      intro stream _ fault member
      cases member
  | cons call calls induction =>
      intro stream room fault member
      rw [List.length_cons] at room
      have roomy : Roomy stream := by
        unfold Roomy
        unfold horizon at room
        omega
      have safe := perform_safe call roomy
      unfold Satisfies at safe
      rw [outcomes] at member
      cases result : call.perform.run stream with
      | ok value after =>
          rw [result] at safe member
          rcases List.mem_cons.mp member with equal | member
          · cases equal
          · exact induction after (by omega) fault member
      | error thrown after =>
          rw [result] at safe member
          obtain ⟨⟨_, moved⟩, permitted⟩ := safe
          rcases List.mem_cons.mp member with equal | member
          · cases equal
            exact permitted
          · exact induction after (by omega) fault member

/-- The bodies of the loops whose number of turns the input says; the items
that `skipField` walks over need fuel for the bytes that are left. -/
inductive WireLoop (stream : BufferReader) :
    (α : Type) → (α → Decode α) → Prop
  | skipItem {fuel} : 2 * remaining stream + 1 ≤ fuel →
      WireLoop stream Unit (skipItem fuel)
  | charItem : WireLoop stream (List UInt8) readCharItem
  | vectorItem (elem fresh old) : WireLoop stream (List Value)
      (readVectorItem (fun target => Tup.read elem target 0 true) fresh old)
  | setItem (less elem) : WireLoop stream (List Value)
      (readSetItem less (Tup.read elem elem.default 0 true))
  | mapEntry (less key value) : WireLoop stream (List (Value × Value))
      (readMapEntry less (Tup.read key key.default 0 true)
        (Tup.read value value.default 1 true))

private theorem elementSafe_read (type : WireType) (target : Value)
    (tag : UInt8) : ElementSafe (Tup.read type target tag true) :=
  elementSafe_of_body (safe_readBody type target tag) _ target tag

private theorem WireLoop.turn {stream : BufferReader} {α : Type}
    {body : α → Decode α} (loop : WireLoop stream α body)
    (roomy : Roomy stream) (acc : α) (after : BufferReader)
    (reached : Reaches stream after) :
    Safe (body acc) after
      (fun _ next => remaining next < remaining after) := by
  have roomy' := reached.roomy roomy
  have fewer := reached.remaining_le
  cases loop with
  | @skipItem fuel enough =>
      exact safe_skipItem (skipsSafely fuel) roomy' (by omega)
  | charItem => exact safe_readCharItem roomy' acc
  | vectorItem elem fresh old =>
      exact safe_readVectorItem (fun target => elementSafe_read elem target 0)
        fresh old acc roomy'
  | setItem less elem =>
      exact safe_readSetItem (elementSafe_read elem _ 0) less acc roomy'
  | mapEntry less key value =>
      exact safe_readMapEntry (elementSafe_read key _ 0)
        (elementSafe_read value _ 1) less acc roomy'

theorem WireLoop.iterations_le {stream : BufferReader} {α : Type}
    {body : α → Decode α} (loop : WireLoop stream α body)
    (roomy : Roomy stream) (count : Nat) (acc : α) :
    iterations body count acc stream ≤ remaining stream + 1 :=
  PrefixDecoding.iterations_le remaining (loop.turn roomy) count acc

/-- With room for the cursor, no call of a sequence does anything but return or
throw, and no loop over a count from the wire is entered more often than there
are bytes left, plus once. -/
theorem outcomes_safe (calls : List Call) (stream : BufferReader)
    (room : max stream.cur (stream.size + 2 ^ 32) + 8 * (calls.length + 1) ≤
      2 ^ 64) :
    (∀ fault, some fault ∈ outcomes calls stream →
      ∃ exception, fault = .throws exception) ∧
    ∀ (within : BufferReader) (α : Type) (body : α → Decode α),
      Roomy within → WireLoop within α body →
      ∀ count acc, iterations body count acc within ≤ remaining within + 1 := by
  constructor
  · intro fault member
    have thrown := outcomes_thrown_of_room calls stream room fault member
    cases fault with
    | throws exception => exact ⟨exception, rfl⟩
    | outOfBounds index => exact thrown.elim
    | outOfFuel => exact thrown.elim
  · intro within α body roomy loop count acc
    exact loop.iterations_le roomy count acc

/-- A struct cut short inside a map that claims four million entries. -/
theorem outcomes_safe_truncated :
    let stream := BufferReader.setBuffer [10, 24, 2, 0, 64, 0, 0, 0] (by decide)
    (∀ fault, some fault ∈ outcomes
        [.skipToStructEnd, .read .string (.string []) 0 true, .readUnknown 0]
        stream → ∃ exception, fault = .throws exception) ∧
      iterations readCharItem 4194304 [] stream ≤ 9 := by
  intro stream
  obtain ⟨thrown, bounded⟩ := outcomes_safe
    [.skipToStructEnd, .read .string (.string []) 0 true, .readUnknown 0]
    stream (by decide)
  have roomy : Roomy stream := by
    unfold Roomy
    decide
  exact ⟨thrown, bounded stream _ readCharItem roomy .charItem 4194304 []⟩

/-- With the cursor on the last value of `size_t` the guard wraps around, and
the length byte of a string is read from there. -/
theorem outcomes_wrapped_cursor :
    outcomes [.skipField HeadType.string1.code]
        ((BufferReader.setBuffer [0] (by decide)).moveTo (2 ^ 64 - 1)) =
      [some (.outOfBounds (2 ^ 64 - 1))] := by
  rfl

end TarsCpp.Tup
