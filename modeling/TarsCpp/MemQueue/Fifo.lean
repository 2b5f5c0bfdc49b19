import TarsCpp.TransitionRun
import TarsCpp.MemQueue.Operations

/-!
# The queue as a bounded first-in first-out queue

A run starts with `create` on zero-filled memory and performs operations one
after the other.  `isFull` calls an empty queue not full for every size, so a
string that is too long for the whole ring is stored all the same; and the
difference of the counters is taken one too low once the push counter has
wrapped.  In every run that avoids these two situations, the queue behaves as
a list of strings.
-/

namespace TarsCpp

namespace MemQueue

open Interruption SharedMemory Circular TransitionRun

/-- An operation and what came of it. -/
abbrev Label := Operation × Except Failure Result

/-- One operation of a process that is not killed. -/
def Step (queue : TcMemQueue) (area : QueueArea) (label : Label)
    (next : QueueArea) : Prop :=
  match (perform queue label.1).run ⟨area, none⟩ with
  | .ok result after => label.2 = .ok result ∧ next = after.memory
  | .error (.raised failure) after =>
      label.2 = .error failure ∧ next = after.memory
  | .error .killed _ => False

/-- The bytes that strings take in the ring. -/
def recordsLength (items : List (List UInt8)) : Nat :=
  (items.flatMap record).length

/-- What a queue of `size` data bytes is for. -/
inductive FifoStep (size : Nat) :
    List (List UInt8) → Label → List (List UInt8) → Prop
  | pushed {items item} :
      recordsLength (items ++ [item]) ≤ size →
      FifoStep size items (.pushBack item, .ok (.pushed true))
        (items ++ [item])
  | refused {items item} :
      size ≤ recordsLength (items ++ [item]) →
      FifoStep size items (.pushBack item, .ok (.pushed false)) items
  | popped {item later} :
      FifoStep size (item :: later) (.popFront, .ok (.popped (some item)))
        later
  | poppedNothing :
      FifoStep size [] (.popFront, .ok (.popped none)) []
  | peeked {item later} :
      FifoStep size (item :: later) (.front, .ok (.peeked (some item)))
        (item :: later)
  | peekedNothing :
      FifoStep size [] (.front, .ok (.peeked none)) []
  | empty {items} :
      FifoStep size items (.isEmpty, .ok (.empty (decide (items = []))))
        items
  | count {items} :
      FifoStep size items (.elementCount, .ok (.count items.length)) items

/-- Where the code meets its purpose: a string pushed onto an empty queue is
short enough for the ring, and the elements are counted only while the push
counter is not behind the pop counter. -/
def Manageable (size : Nat) (area : QueueArea) (label : Label) : Prop :=
  match label.1 with
  | .pushBack item =>
      area.words .iTopIndex = area.words .iBotIndex →
        sizeofSizeT + item.length < size ∨
        sizeofSizeT + item.length = size ∧ area.words .iTopIndex = 0
  | .elementCount => area.words .iPopCount ≤ area.words .iPushCount
  | _ => True

/-- In the runs whose steps meet `guard`: every step is one of the bounded
list, so that none stores outside of the ring or fails, the list is what is
seen in the memory, and a refused push leaves the memory as it was. -/
def RefinesFifo (size : Nat) (guard : QueueArea → Label → Prop) : Prop :=
  ∀ queue area labels last,
    (create (sizeofControlBlock + sizeofModifyHead + size)).run
      ⟨zeroFilled size, none⟩ = .ok queue ⟨area, none⟩ →
    Run (Guarded guard (Step queue)) area labels last →
    ∃ items, Run (FifoStep size) [] labels items ∧
      (seen last).content = items ∧
      ∀ item next, Guarded guard (Step queue) last
        (.pushBack item, .ok (.pushed false)) next → next = last

/-- The memory holds these strings and their counters. -/
structure Stores (size : Nat) (area : QueueArea)
    (items : List (List UInt8)) : Prop where
  laid : ∃ words data, data.size = size ∧ Settled words data area ∧
    Ring words data (items.flatMap record)
  counters : area.words .iPushCount =
    (area.words .iPopCount + items.length) % 2 ^ 64 ∧
    area.words .iPopCount < 2 ^ 64

section Steps

variable {size : Nat} {area next : QueueArea} {items : List (List UInt8)}
  {outcome : Except Failure Result}

theorem step_of_yields (queue : TcMemQueue) (operation : Operation)
    {result : Result} (yields : Yields (perform queue operation) area result)
    (step : Step queue area (operation, outcome) next) :
    outcome = .ok result ∧ next = area := by
  unfold Step at step
  rw [yields none] at step
  exact step

theorem step_of_performs (queue : TcMemQueue) (operation : Operation)
    {returns : Result → QueueArea → Prop} {crashes : QueueArea → Prop}
    (performs : Performs never (perform queue operation) area returns
      crashes)
    (step : Step queue area (operation, outcome) next) :
    ∃ result, outcome = .ok result ∧ returns result next := by
  obtain ⟨result, after, run, holds⟩ := performs.completes
  unfold Step at step
  rw [run] at step
  exact ⟨result, step.1, step.2 ▸ holds⟩

theorem records_append (items : List (List UInt8)) (item : List UInt8) :
    (items ++ [item]).flatMap record = items.flatMap record ++ record item := by
  rw [List.flatMap_append, List.flatMap_singleton]

theorem records_nil_iff :
    items.flatMap record = [] ↔ items = [] := by
  constructor
  · intro empty
    cases items with
    | nil => rfl
    | cons item later =>
        have none := congrArg List.length empty
        rw [List.flatMap_cons, List.length_append, length_record] at none
        exact absurd none (by simp [sizeofSizeT])
  · rintro rfl
    rfl

theorem length_le_records (items : List (List UInt8)) :
    items.length ≤ (items.flatMap record).length ∧
      ∀ item ∈ items, item.length ≤ (items.flatMap record).length := by
  induction items with
  | nil => exact ⟨Nat.le_refl _, fun item member => by cases member⟩
  | cons first later induction =>
      obtain ⟨fewer, shorter⟩ := induction
      rw [List.flatMap_cons, List.length_append, length_record]
      refine ⟨?_, ?_⟩
      · rw [List.length_cons]
        simp only [sizeofSizeT]
        omega
      · intro item member
        rcases List.mem_cons.mp member with rfl | member
        · omega
        · exact Nat.le_trans (shorter item member) (Nat.le_add_left _ _)

theorem Stores.content (stores : Stores size area items)
    (addressable : size < 2 ^ 64) : (seen area).content = items := by
  obtain ⟨words, data, rfl, settled, ring⟩ := stores.laid
  obtain ⟨fewer, shorter⟩ := length_le_records items
  rw [seen_of_settled settled, seenOf, ring.ringBytes_eq]
  apply strings_records
  · exact Nat.le_trans fewer ring.bounded
  · intro item member
    exact Nat.lt_of_le_of_lt
      (Nat.le_trans (shorter item member) ring.bounded) addressable

variable {words : ControlWord → Nat} {data : DataArea}
  {stored later : List UInt8} {item : List UInt8}

theorem Ring.pushed (ring : Ring words data stored)
    (room : (stored ++ record item).length < data.size ∨
      (stored ++ record item).length = data.size ∧ words .iBotIndex = 0)
    {data' : DataArea} (sameSize : data'.size = data.size)
    (holds : Holds data.size data'.byte (words .iBotIndex)
      (stored ++ record item)) :
    Ring (pushed words (advance data.size (words .iBotIndex)
      (stored ++ record item).length)) data' (stored ++ record item) := by
  rw [← sameSize] at room holds ⊢
  constructor
  · rw [sameSize]
    exact ring.memSize
  · rw [sameSize]
    exact ring.bottom
  · rfl
  · exact Or.inr room
  · exact holds

theorem Ring.popped (ring : Ring words data (record item ++ later)) :
    Ring (popped words (advance data.size (words .iBotIndex)
      (record item).length)) data later := by
  have bounded := ring.bounded
  rw [List.length_append] at bounded
  constructor
  · exact ring.memSize
  · exact advance_le ring.bottom (by omega)
  · have top := ring.top
    rw [List.length_append] at top
    exact top.trans (advance_advance ring.bottom bounded).symm
  · refine Or.inr (Or.inl ?_)
    have positive : 0 < (record item).length := by
      rw [length_record]
      exact Nat.add_pos_left (by decide) _
    omega
  · exact ring.holds.back ring.bottom ring.bounded

/-- A push that has room appends its string. -/
theorem push_appends (stores : Stores size area items)
    (room : recordsLength (items ++ [item]) < size ∨
      items = [] ∧ recordsLength (items ++ [item]) = size ∧
        area.words .iBotIndex = 0)
    (step : Step (queueOf size) area (.pushBack item, outcome) next) :
    outcome = .ok (.pushed true) ∧ Stores size next (items ++ [item]) := by
  obtain ⟨⟨words, data, rfl, settled, ring⟩, counted, popCount⟩ := stores
  have sameWords : area.words = words := settled.words
  rw [sameWords] at counted popCount room
  rw [recordsLength, records_append] at room
  have fits : (items.flatMap record).length + (record item).length ≤
      data.size := by
    rw [← List.length_append]
    rcases room with smaller | ⟨_, full, _⟩
    · exact Nat.le_of_lt smaller
    · exact Nat.le_of_eq full
  have accepted : items.flatMap record = [] ∨
      (items.flatMap record).length + (record item).length < data.size := by
    rw [← List.length_append]
    rcases room with smaller | ⟨empty, _⟩
    · exact Or.inr smaller
    · exact Or.inl (records_nil_iff.mpr empty)
  obtain ⟨_, performs⟩ := pushBack_performs never settled ring
    item fits accepted
  obtain ⟨_, rfl, answer, rfl, rfl, _, data', sameSize, settled', holds⟩ :=
    step_of_performs (queueOf data.size) (.pushBack item)
      (performs.mapped _) step
  refine ⟨rfl, ⟨_, data', sameSize, settled', ?_⟩, ?_, ?_⟩
  · rw [records_append]
    exact ring.pushed (room.imp_right And.right) sameSize holds
  · have longer : (items ++ [item]).length = items.length + 1 :=
      List.length_append
    rw [settled'.words, longer]
    show (words .iPushCount + 1) % 2 ^ 64 =
      (words .iPopCount + (items.length + 1)) % 2 ^ 64
    omega
  · rw [settled'.words]
    exact popCount

/-- A push is refused only onto strings that leave too little room. -/
theorem push_refused (stores : Stores size area items) (nonempty : items ≠ [])
    (full : size ≤ recordsLength (items ++ [item]))
    (step : Step (queueOf size) area (.pushBack item, outcome) next) :
    outcome = .ok (.pushed false) ∧ next = area := by
  obtain ⟨⟨words, data, rfl, settled, ring⟩, _, _⟩ := stores
  rw [recordsLength, records_append, List.length_append] at full
  have refused := pushBack_refused settled ring item
    (fun empty => nonempty (records_nil_iff.mp empty)) full
  exact step_of_yields (queueOf data.size) (.pushBack item)
    (refused.map Result.pushed) step

theorem pop_takes_oldest (addressable : size < 2 ^ 64)
    {later : List (List UInt8)} (stores : Stores size area (item :: later))
    (step : Step (queueOf size) area (.popFront, outcome) next) :
    outcome = .ok (.popped (some item)) ∧ Stores size next later := by
  obtain ⟨⟨words, data, rfl, settled, ring⟩, counted, popCount⟩ := stores
  have sameWords : area.words = words := settled.words
  rw [sameWords] at counted popCount
  have nonempty : (item :: later).flatMap record ≠ [] := by
    intro empty
    exact List.cons_ne_nil _ _ (records_nil_iff.mp empty)
  have oldest := readFront_yields settled ring addressable
  have performs := popFront_performs never settled ring nonempty
    oldest
  obtain ⟨_, rfl, answer, rfl, rfl, settled'⟩ :=
    step_of_performs (queueOf data.size) .popFront (performs.mapped _)
      step
  refine ⟨rfl, ⟨_, data, rfl, settled', ring.popped⟩, ?_, ?_⟩
  · rw [settled'.words]
    rw [List.length_cons] at counted
    show words .iPushCount =
      ((words .iPopCount + 1) % 2 ^ 64 + later.length) % 2 ^ 64
    omega
  · rw [settled'.words]
    exact Nat.mod_lt _ (by decide)

/-- The operations that only look answer from the list. -/
theorem looks_agree (addressable : size < 2 ^ 64)
    (stores : Stores size area items) :
    Yields (queueOf size).front area items.head? ∧
      Yields TcMemQueue.isEmpty area (decide (items = [])) ∧
      (area.words .iPopCount ≤ area.words .iPushCount →
        Yields TcMemQueue.elementCount area items.length) := by
  obtain ⟨⟨words, data, rfl, settled, ring⟩, counted, popCount⟩ := stores
  have isEmpty := isEmpty_yields settled ring
  rw [decide_eq_decide.mpr records_nil_iff] at isEmpty
  refine ⟨?_, isEmpty, ?_⟩
  · refine isEmpty.bind ?_
    cases items with
    | nil => exact Yields.pure none
    | cons item later =>
        exact (doUpdate_yields settled).bind
          ((readFront_yields settled ring addressable).bind (Yields.pure _))
  · intro ahead
    rw [settled.words] at counted popCount ahead
    have bounded := ring.bounded
    have fewer := (length_le_records items).1
    have difference :
        words .iPushCount - words .iPopCount = items.length := by
      omega
    refine (doUpdate_yields settled).bind ((word_yields settled _).bind
      ((word_yields settled _).bind ?_))
    rw [if_pos ahead, difference]
    exact Yields.pure _

/-- A manageable push appends its string or is refused without a change. -/
theorem push_matches (stores : Stores size area items)
    (step : Guarded (Manageable size) (Step (queueOf size)) area
      (.pushBack item, outcome) next) :
    outcome = .ok (.pushed true) ∧
        recordsLength (items ++ [item]) ≤ size ∧
        Stores size next (items ++ [item]) ∨
      outcome = .ok (.pushed false) ∧
        size ≤ recordsLength (items ++ [item]) ∧ next = area := by
  obtain ⟨manageable, step⟩ := step
  by_cases empty : items = []
  · subst empty
    left
    obtain ⟨words, data, rfl, settled, ring⟩ := stores.laid
    have sameWords : area.words = words := settled.words
    have same : area.words .iTopIndex = area.words .iBotIndex := by
      rw [sameWords]
      exact ring.empty_iff.mpr rfl
    have alone : recordsLength ([] ++ [item]) =
        sizeofSizeT + item.length := by
      rw [recordsLength, records_append]
      exact length_record item
    have room := manageable same
    obtain ⟨done, stores'⟩ := push_appends stores (by
      rw [alone, ← same]
      exact room.imp_right fun exactly => ⟨rfl, exactly⟩) step
    refine ⟨done, ?_, stores'⟩
    rw [alone]
    omega
  · by_cases room : recordsLength (items ++ [item]) < size
    · obtain ⟨done, stores'⟩ := push_appends stores (Or.inl room) step
      exact Or.inl ⟨done, Nat.le_of_lt room, stores'⟩
    · have full := Nat.le_of_not_lt room
      obtain ⟨done, same⟩ := push_refused stores empty full step
      exact Or.inr ⟨done, full, same⟩

/-- One manageable operation is one step of the bounded list. -/
theorem step_matches (addressable : size < 2 ^ 64)
    (stores : Stores size area items) {label : Label}
    (step : Guarded (Manageable size) (Step (queueOf size)) area label
      next) :
    ∃ items', FifoStep size items label items' ∧
      Stores size next items' := by
  obtain ⟨operation, outcome⟩ := label
  obtain ⟨front, isEmpty, elementCount⟩ := looks_agree addressable stores
  have taken := step.2
  cases operation with
  | pushBack item =>
      rcases push_matches stores step with
        ⟨rfl, room, stores'⟩ | ⟨rfl, full, rfl⟩
      · exact ⟨_, .pushed room, stores'⟩
      · exact ⟨_, .refused full, stores⟩
  | popFront =>
      cases items with
      | nil =>
          obtain ⟨words, data, rfl, settled, ring⟩ := stores.laid
          have nothing := popFront_empty settled ring rfl
          obtain ⟨rfl, rfl⟩ := step_of_yields (queueOf data.size)
            .popFront (nothing.map Result.popped) taken
          exact ⟨_, .poppedNothing, stores⟩
      | cons item later =>
          obtain ⟨rfl, stores'⟩ :=
            pop_takes_oldest addressable stores taken
          exact ⟨_, .popped, stores'⟩
  | front =>
      obtain ⟨rfl, rfl⟩ := step_of_yields (queueOf size) .front
        (front.map Result.peeked) taken
      cases items with
      | nil => exact ⟨_, .peekedNothing, stores⟩
      | cons item later => exact ⟨_, .peeked, stores⟩
  | isEmpty =>
      obtain ⟨rfl, rfl⟩ := step_of_yields (queueOf size) .isEmpty
        (isEmpty.map Result.empty) taken
      exact ⟨_, .empty, stores⟩
  | elementCount =>
      obtain ⟨rfl, rfl⟩ := step_of_yields (queueOf size) .elementCount
        ((elementCount step.1).map Result.count) taken
      exact ⟨_, .count, stores⟩

end Steps

section Runs

/-- The control words of a new queue. -/
def created (size : Nat) : QueueArea :=
  (zeroFilled size).withWord .iMemSize
    (sizeofControlBlock + sizeofModifyHead + size)

theorem create_run (size : Nat) :
    (create (sizeofControlBlock + sizeofModifyHead + size)).run
      ⟨zeroFilled size, none⟩ = .ok (queueOf size) ⟨created size, none⟩ := by
  have nonzero : sizeofControlBlock + sizeofModifyHead + size ≠ 0 := by
    simp only [sizeofControlBlock]
    omega
  have unchanged : ∀ (area : QueueArea) (name : ControlWord),
      area.words name = 0 → area.withWord name 0 = area := by
    intro area name zero
    rw [Area.withWord, ← zero, Function.update_eq_self]
  rw [create, EStateM.run_bind, Yields.require nonzero Failure.assertion]
  show EStateM.Result.ok _ (Process.mk (((((zeroFilled size).withWord _ _
    ).withWord _ _).withWord _ _).withWord _ _ |>.withWord _ _) none) = _
  rw [unchanged _ .iPushCount rfl, unchanged _ .iPopCount rfl,
    unchanged _ .iBotIndex rfl, unchanged _ .iTopIndex rfl]
  rfl

theorem created_sound (size : Nat) : Sound (created size).words size where
  memSize := rfl
  bottom := Nat.zero_le _
  top := Nat.zero_le _
  fresh _ := rfl

theorem created_settled (size : Nat) :
    Settled (created size).words (created size).rest (created size) :=
  Settled.mk rfl rfl rfl rfl

theorem created_stores (size : Nat) : Stores size (created size) [] where
  laid := ⟨_, _, rfl, created_settled size, (created_sound size).ring⟩
  counters := ⟨rfl, Nat.two_pow_pos 64⟩

theorem refines_fifo {size : Nat}
    (addressable : sizeofControlBlock + sizeofModifyHead + size < 2 ^ 63) :
    RefinesFifo size (Manageable size) := by
  intro queue area labels last start run
  have bounded : size < 2 ^ 64 := by omega
  rw [create_run] at start
  obtain ⟨rfl, rfl⟩ : queueOf size = queue ∧ created size = area := by
    simpa using start
  have matched : ∀ {area : QueueArea} {items label next},
      Stores size area items →
      Guarded (Manageable size) (Step (queueOf size)) area label next →
      ∃ items', FifoStep size items label items' ∧
        Stores size next items' := by
    intro area items label next stores step
    exact step_matches bounded stores step
  obtain ⟨items, fifo, stores⟩ :=
    run.simulates matched (created_stores size)
  refine ⟨items, fifo, stores.content bounded, ?_⟩
  intro item next step
  rcases push_matches stores step with ⟨accepted, _⟩ | ⟨_, _, same⟩
  · cases accepted
  · exact same

/-- What came of a run, without the memory that it left. -/
def outcomeOf :
    EStateM.Result (Stop Failure) (Process QueueArea) Result →
      Option (Except Failure Result)
  | .ok result _ => some (.ok result)
  | .error (.raised failure) _ => some (.error failure)
  | .error .killed _ => none

/-- The memory behind an operation. -/
def memoryAfter (queue : TcMemQueue) (area : QueueArea)
    (operation : Operation) : QueueArea :=
  match (perform queue operation).run ⟨area, none⟩ with
  | .ok _ after => after.memory
  | .error _ after => after.memory

theorem step_of_outcome {queue : TcMemQueue} {area : QueueArea}
    {operation : Operation} {outcome : Except Failure Result}
    (evaluated : outcomeOf ((perform queue operation).run ⟨area, none⟩) =
      some outcome) :
    Step queue area (operation, outcome)
      (memoryAfter queue area operation) := by
  unfold Step memoryAfter
  cases run : (perform queue operation).run ⟨area, none⟩ with
  | ok result after =>
      rw [run] at evaluated
      exact ⟨(Option.some.inj evaluated).symm, rfl⟩
  | error stop after =>
      rw [run] at evaluated
      cases stop with
      | killed => cases evaluated
      | raised failure => exact ⟨(Option.some.inj evaluated).symm, rfl⟩

/-- A queue of sixteen bytes; the second string lies over the end of the
ring, and there is no room for another one beside it. -/
theorem refines_fifo_sixteen : ∃ items, Run (FifoStep 16) []
    [(.pushBack [7], .ok (.pushed true)),
      (.popFront, .ok (.popped (some [7]))),
      (.pushBack [8, 9], .ok (.pushed true)),
      (.pushBack [5], .ok (.pushed false)),
      (.popFront, .ok (.popped (some [8, 9])))] items := by
  obtain ⟨one, behind₁, first⟩ : ∃ next,
      next = memoryAfter (queueOf 16) (created 16) (.pushBack [7]) ∧
      Step (queueOf 16) (created 16) (.pushBack [7], .ok (.pushed true)) next :=
    ⟨_, rfl, step_of_outcome (by decide +kernel)⟩
  obtain ⟨two, behind₂, second⟩ : ∃ next,
      next = memoryAfter (queueOf 16) one .popFront ∧
      Step (queueOf 16) one (.popFront, .ok (.popped (some [7]))) next :=
    ⟨_, rfl, step_of_outcome (by rw [behind₁]; decide +kernel)⟩
  rw [behind₁] at behind₂
  obtain ⟨three, behind₃, third⟩ : ∃ next,
      next = memoryAfter (queueOf 16) two (.pushBack [8, 9]) ∧
      Step (queueOf 16) two (.pushBack [8, 9], .ok (.pushed true)) next :=
    ⟨_, rfl, step_of_outcome (by rw [behind₂]; decide +kernel)⟩
  rw [behind₂] at behind₃
  obtain ⟨four, behind₄, fourth⟩ : ∃ next,
      next = memoryAfter (queueOf 16) three (.pushBack [5]) ∧
      Step (queueOf 16) three (.pushBack [5], .ok (.pushed false)) next :=
    ⟨_, rfl, step_of_outcome (by rw [behind₃]; decide +kernel)⟩
  rw [behind₃] at behind₄
  have fifth : Step (queueOf 16) four
      (.popFront, .ok (.popped (some [8, 9]))) _ :=
    step_of_outcome (by rw [behind₄]; decide +kernel)
  have short : ∀ item : List UInt8, item.length < 8 → ∀ area outcome,
      Manageable 16 area (.pushBack item, outcome) :=
    fun item short area outcome _ => .inl (by unfold sizeofSizeT; omega)
  have pops : ∀ area outcome, Manageable 16 area (.popFront, outcome) :=
    fun _ _ => trivial
  obtain ⟨items, fifo, _⟩ := refines_fifo (by decide) _ _ _ _
    (create_run 16) <|
    .cons ⟨short _ (by decide) _ _, first⟩ <|
    .cons ⟨pops _ _, second⟩ <|
    .cons ⟨short _ (by decide) _ _, third⟩ <|
    .cons ⟨short _ (by decide) _ _, fourth⟩ <|
    .cons ⟨pops _ _, fifth⟩ (.nil _)
  exact ⟨items, fifo⟩

/-- A string of 32 bytes, pushed onto the empty queue of sixteen bytes, is
stored over the end of the memory. -/
theorem overlong_stores_outside : ¬RefinesFifo 16 (fun _ _ => True) := by
  intro refines
  have step : Step (queueOf 16) (created 16)
      (.pushBack (List.replicate 32 0), .error .outside) _ :=
    step_of_outcome (by decide +kernel)
  obtain ⟨items, fifo, _⟩ := refines _ _ _ _ (create_run 16)
    (.cons ⟨trivial, step⟩ (.nil _))
  cases fifo with
  | cons taken _ => cases taken

end Runs

end MemQueue

end TarsCpp
