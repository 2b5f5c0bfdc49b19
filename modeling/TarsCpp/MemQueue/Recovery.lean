import TarsCpp.MemQueue.Fifo

/-!
# A kill at any instant

A process may be killed in front of any of its writes.  The next process
connects to the memory, and its first operation repairs the journal; it may be
killed itself, any number of times.  What is seen in the end is what was seen
before the operation or what a completed operation would have left.

Every state that completed operations reach is covered, those after a push
that was too long for the ring included: there the indices are still sound,
although the bytes between them need not be records.
-/

namespace TarsCpp

namespace MemQueue

open Interruption SharedMemory Circular TransitionRun

/-- `connect`, and the `doUpdate()` that starts every operation. -/
def recover (size : Nat) : QueueTask Unit := do
  let _ ← connect (sizeofControlBlock + sizeofModifyHead + size)
  doUpdate false

/-- The operation finds room in an empty ring. -/
def Fits (size : Nat) : Operation → Prop
  | .pushBack item => sizeofSizeT + item.length ≤ size
  | _ => True

def Completed (_ : QueueArea) (label : Label) : Prop :=
  ∃ result, label.2 = .ok result

/-- No operation is under way and the indices are sound. -/
def Steady (size : Nat) (area : QueueArea) : Prop :=
  ∃ words data, data.size = size ∧ Settled words data area ∧
    Sound words size

section Partial

variable {words : ControlWord → Nat} {data : DataArea} {area : QueueArea}
  {size : Nat}

/-- Any failure is allowed. -/
abbrev anyFailure (_ : Failure) : Prop := True

theorem copyOut_attempts (settled : Settled words data area)
    (offset count : Nat) :
    Attempts (copyOut offset count) area
      (fun _ => offset + count ≤ data.size) := by
  have size : area.rest.size = data.size := by rw [settled.rest]
  refine Attempts.bind (Yields.read _).attempts ?_
  rintro _ rfl
  rw [size]
  refine (Attempts.require _ _).bind ?_
  intro _ inside
  exact Or.inl ⟨_, Yields.read _, inside⟩

/-- Whatever the ring holds, the reading branches leave the bottom index
inside of it. -/
theorem readFront_attempts (settled : Settled words data area) :
    Attempts (queueOf data.size).readFront area
      (fun answer => 0 < answer.2 ∧ answer.2 ≤ data.size) := by
  have eight : 0 < sizeofSizeT := by decide
  refine (word_yields settled _).attempts.bind ?_
  rintro _ rfl
  refine (queueSize_yields settled).attempts.bind ?_
  rintro _ rfl
  by_cases lengthWhole : words .iBotIndex + sizeofSizeT ≤ data.size
  · rw [if_pos lengthWhole]
    refine (copyOut_attempts settled _ _).bind ?_
    intro bytes _
    by_cases whole :
        words .iBotIndex + sizeofSizeT + sizeOfBytes bytes ≤ data.size
    · simp only [if_pos whole]
      refine (copyOut_attempts settled _ _).bind ?_
      intro sOut _
      refine Attempts.pure ⟨?_, whole⟩
      simp only
      omega
    · simp only [if_neg whole]
      refine (copyOut_attempts settled _ _).bind ?_
      intro front _
      refine (copyOut_attempts settled _ _).bind ?_
      intro back inside
      refine Attempts.pure ⟨?_, ?_⟩
      · simp only
        omega
      · simp only
        omega
  · rw [if_neg lengthWhole]
    refine (copyOut_attempts settled _ _).bind ?_
    intro low _
    refine (copyOut_attempts settled _ _).bind ?_
    intro high _
    refine (copyOut_attempts settled _ _).bind ?_
    intro sOut inside
    refine Attempts.pure ⟨?_, ?_⟩
    · simp only
      omega
    · simp only
      omega

/-- A copy onto an empty ring, wherever it goes. -/
theorem copyIn_anywhere :
    ∀ (bytes : List UInt8) (offset : Nat) (area : QueueArea),
      Filled words size [] area →
      Performs anyFailure (copyIn offset bytes) area
        (fun _ after => Filled words size [] after ∧
          (bytes = [] ∨ offset + bytes.length ≤ size))
        (fun _ => True) := by
  intro bytes
  induction bytes with
  | nil =>
      intro offset area filled
      exact Performs.pure ⟨filled, Or.inl rfl⟩
  | cons symbol later induction =>
      intro offset area filled
      refine Performs.bind (p := fun _ after =>
        Filled words size [] after ∧ offset < size) ?_ ?_
      · obtain ⟨data, settled, rfl, _⟩ := filled
        have sameRest : area.rest = data := settled.rest
        refine Performs.bindRead ?_
        rw [sameRest]
        refine Performs.bindCheck (fun _ => trivial) ?_
        intro inside
        refine Performs.write trivial ⟨⟨data.withByte offset symbol, ?_, rfl,
          Holds.nil⟩, inside⟩
        refine Settled.mk settled.words ?_ settled.index settled.status
        rw [sameRest]
      · intro _ after ⟨filled', inside⟩
        refine (induction (offset + 1) after filled').mono ?_
          (fun _ _ => trivial)
        intro _ final ⟨filled'', covered⟩
        refine ⟨filled'', Or.inr ?_⟩
        rw [List.length_cons]
        rcases covered with rfl | covered
        · simp only [List.length_nil]
          omega
        · omega

theorem storeBack_anywhere (settled : Settled words data area)
    (top : words .iTopIndex ≤ data.size) (item : List UInt8) :
    Performs anyFailure ((queueOf data.size).storeBack item) area
      (fun iTopIndex after => 0 < iTopIndex ∧ iTopIndex ≤ data.size ∧
        Filled words data.size [] after)
      (fun _ => True) := by
  have eight : 0 < sizeofSizeT := by decide
  have lengthWord := length_sizeBytes item.length
  have filled : Filled words data.size [] area :=
    ⟨data, settled, rfl, Holds.nil⟩
  refine (word_yields settled _).performs
    ((queueSize_yields settled).performs (Performs.ite ?_ ?_))
  · intro whole
    refine Performs.bind (copyIn_anywhere _ _ _ filled) ?_
    intro _ first ⟨filledFirst, _⟩
    refine Performs.bind (copyIn_anywhere _ _ _ filledFirst) ?_
    intro _ last ⟨filledLast, _⟩
    exact Performs.pure ⟨by omega, whole, filledLast⟩
  · intro cut
    refine Performs.ite ?_ ?_
    · intro lengthCut
      refine Performs.bind (copyIn_anywhere _ _ _ filled) ?_
      intro _ first ⟨filledFirst, _⟩
      refine Performs.bind (copyIn_anywhere _ _ _ filledFirst) ?_
      intro _ second ⟨filledSecond, inside⟩
      refine Performs.bind (copyIn_anywhere _ _ _ filledSecond) ?_
      intro _ last ⟨filledLast, inside'⟩
      refine Performs.pure ⟨by omega, ?_, filledLast⟩
      have high : 0 + (sizeofSizeT - (data.size - words .iTopIndex)) ≤
          data.size := by
        rcases inside with none | inside
        · have short := congrArg List.length none
          rw [List.length_drop, lengthWord, List.length_nil] at short
          omega
        · rw [List.length_drop, lengthWord] at inside
          exact inside
      rcases inside' with rfl | inside'
      · simp only [List.length_nil]
        omega
      · omega
    · intro lengthWhole
      refine Performs.bind (copyIn_anywhere _ _ _ filled) ?_
      intro _ first ⟨filledFirst, _⟩
      refine Performs.bind (copyIn_anywhere _ _ _ filledFirst) ?_
      intro _ second ⟨filledSecond, _⟩
      refine Performs.bind (copyIn_anywhere _ _ _ filledSecond) ?_
      intro _ last ⟨filledLast, inside⟩
      refine Performs.pure ⟨by omega, ?_, filledLast⟩
      rcases inside with none | inside
      · have short := congrArg List.length none
        rw [List.length_drop, List.length_nil] at short
        omega
      · rw [List.length_drop] at inside
        omega

end Partial

section Steady

variable {words : ControlWord → Nat} {data : DataArea} {area next : QueueArea}
  {size : Nat} {result : Result}

theorem Sound.popped (sound : Sound words size) {position : Nat}
    (nonempty : words .iTopIndex ≠ words .iBotIndex)
    (bounded : position ≤ size) : Sound (popped words position) size where
  memSize := sound.memSize
  bottom := bounded
  top := sound.top
  fresh := by
    intro zero
    exact absurd (zero.trans (sound.fresh zero).symm) nonempty

theorem Sound.pushed (sound : Sound words size) {position : Nat}
    (positive : 0 < position) (bounded : position ≤ size) :
    Sound (pushed words position) size where
  memSize := sound.memSize
  bottom := sound.bottom
  top := bounded
  fresh := by
    intro zero
    exact absurd zero (Nat.ne_of_gt positive)

theorem step_run {queue : TcMemQueue} {operation : Operation}
    (step : Step queue area (operation, .ok result) next) :
    ∃ after, (perform queue operation).run ⟨area, none⟩ =
      .ok result after ∧ after.memory = next := by
  unfold Step at step
  cases run : (perform queue operation).run ⟨area, none⟩ with
  | ok answer after =>
      rw [run] at step
      cases step.1
      exact ⟨after, rfl, step.2.symm⟩
  | error stop after =>
      rw [run] at step
      cases stop with
      | killed => exact step.elim
      | raised failure => cases step.1

/-- What `pop_front` does in a steady state: a committed step, or nothing but
an answer or a failure. -/
theorem popFront_steady (settled : Settled words data area)
    (sound : Sound words data.size) :
    (∃ sOut position, Sound (popped words position) data.size ∧
      ∀ allowed, Performs allowed (queueOf data.size).popFront area
        (fun answer after => answer = some sOut ∧
          Settled (popped words position) data after)
        (Interrupted data.size (seenOf words data)
          (seenOf (popped words position) data))) ∨
      Attempts (queueOf data.size).popFront area (fun _ => True) := by
  have ring := sound.ring
  by_cases empty : ringBytes words data = []
  · exact Or.inr (popFront_empty settled ring empty).attempts.any
  · rcases readFront_attempts settled with
      ⟨⟨sOut, position⟩, yields, _, bounded⟩ | ⟨failure, fails⟩
    · left
      refine ⟨sOut, position, sound.popped ?_ bounded, fun _ =>
        popFront_performs _ settled ring empty yields⟩
      exact fun same => empty (ring.empty_iff.mp same)
    · right
      have isEmpty := isEmpty_yields settled ring
      rw [decide_eq_false empty] at isEmpty
      refine isEmpty.attempts.bind ?_
      rintro _ rfl
      refine (doUpdate_yields settled).attempts.bind ?_
      intro _ _
      have failing : Attempts (queueOf data.size).readFront area
          (fun _ => False) := Or.inr ⟨failure, fails⟩
      exact failing.bind fun _ absurdity => absurdity.elim

theorem front_attempts (settled : Settled words data area)
    (sound : Sound words data.size) :
    Attempts (queueOf data.size).front area (fun _ => True) := by
  refine (isEmpty_yields settled sound.ring).attempts.bind ?_
  intro empty _
  cases empty with
  | true => exact Attempts.pure trivial
  | false =>
      refine (doUpdate_yields settled).attempts.bind ?_
      intro _ _
      refine (readFront_attempts settled).bind ?_
      intro answer _
      exact Attempts.pure trivial

theorem elementCount_attempts (settled : Settled words data area) :
    Attempts TcMemQueue.elementCount area (fun _ => True) := by
  refine (doUpdate_yields settled).attempts.bind ?_
  intro _ _
  refine (word_yields settled _).attempts.bind ?_
  intro pushCount _
  refine (word_yields settled _).attempts.bind ?_
  intro popCount _
  split
  · exact Attempts.pure trivial
  · exact Attempts.pure trivial

/-- A completed push leaves sound indices, also where its string was too long
for the ring. -/
theorem pushBack_steady (settled : Settled words data area)
    (sound : Sound words data.size) (item : List UInt8) :
    Yields ((queueOf data.size).pushBack item) area false ∨
      Performs anyFailure ((queueOf data.size).pushBack item) area
        (fun _ after => Steady data.size after) (fun _ => True) := by
  have ring := sound.ring
  by_cases empty : ringBytes words data = []
  · right
    have isFull := isFull_yields settled ring item.length
    rw [decide_eq_false (fun full => full.1 empty)] at isFull
    refine isFull.performs ((doUpdate_yields settled).performs
      ((storeBack_anywhere settled sound.top item).bind ?_))
    rintro position filling
      ⟨positive, bounded, data', settled', sameSize, _⟩
    refine (commit_performs _ true settled' .iTopIndex .iPushCount
      position (by decide)).mono ?_ (fun _ _ => trivial)
    intro _ after ⟨_, settled''⟩
    exact ⟨_, data', sameSize, settled'', sound.pushed positive bounded⟩
  · by_cases full : data.size ≤
        (ringBytes words data).length + (record item).length
    · exact Or.inl (pushBack_refused settled ring item empty full)
    · right
      have room := Nat.lt_of_not_le full
      obtain ⟨_, performs⟩ := pushBack_performs anyFailure
        settled ring item (Nat.le_of_lt room) (Or.inr room)
      refine performs.mono ?_ (fun _ _ => trivial)
      rintro _ final ⟨_, _, data', sameSize, settled', _⟩
      refine ⟨_, data', sameSize, settled', sound.pushed ?_ ?_⟩
      · rw [List.length_append, length_record]
        have eight : 0 < sizeofSizeT := by decide
        unfold advance
        split <;> omega
      · apply advance_le ring.bottom
        rw [List.length_append]
        exact Nat.le_of_lt room

/-- What any operation does in a steady state, as far as a kill and the next
operation are concerned. -/
theorem operation_steady (settled : Settled words data area)
    (sound : Sound words data.size) (operation : Operation) :
    Attempts (perform (queueOf data.size) operation) area (fun _ => True) ∨
      Performs anyFailure (perform (queueOf data.size) operation) area
        (fun _ after => Steady data.size after) (fun _ => True) := by
  cases operation with
  | pushBack item =>
      rcases pushBack_steady settled sound item with refused | performs
      · exact Or.inl refused.attempts.map
      · refine Or.inr ((performs.mapped _).mono ?_ fun _ _ => trivial)
        intro _ after ⟨_, _, steady⟩
        exact steady
  | popFront =>
      rcases popFront_steady settled sound with
        ⟨sOut, position, sound', performs⟩ | attempts
      · refine Or.inr (((performs anyFailure).mapped _).mono ?_
          fun _ _ => trivial)
        intro _ after ⟨_, _, _, settled'⟩
        exact ⟨_, data, rfl, settled', sound'⟩
      · exact Or.inl attempts.map
  | front => exact Or.inl (front_attempts settled sound).map
  | isEmpty =>
      exact Or.inl (isEmpty_yields settled sound.ring).attempts.map
  | elementCount => exact Or.inl (elementCount_attempts settled).map

theorem steady_step (steady : Steady size area) {operation : Operation}
    (step : Step (queueOf size) area (operation, .ok result) next) :
    Steady size next := by
  obtain ⟨words, data, rfl, settled, sound⟩ := steady
  obtain ⟨after, run, rfl⟩ := step_run step
  rcases operation_steady settled sound operation with attempts | performs
  · rw [attempts.unchanged.1 _ _ run]
    exact ⟨words, data, rfl, settled, sound⟩
  · exact performs.returned run

end Steady

section Kill

variable {size : Nat} {before after : Seen} {area : QueueArea}

/-- The recovery keeps what a kill may leave until it completes. -/
theorem recover_performs (interrupted : Interrupted size before after area) :
    Performs never (recover size) area
      (fun _ final => (∃ words data, Settled words data final) ∧
        (seen final = before ∨ seen final = after))
      (Interrupted size before after) := by
  obtain ⟨words, data, sameSize, memSize, stage⟩ := interrupted
  have connects : Yields
      (connect (sizeofControlBlock + sizeofModifyHead + size)) area
      (queueOf size) := by
    have sameMemSize : area.words .iMemSize = words .iMemSize := by
      rcases stage with ⟨discardable, _⟩ | ⟨committed, _⟩
      · rw [discardable.words]
      · exact committed.untouched fun touched => touched rfl
    refine (Yields.read _).bind ?_
    rw [sameMemSize, memSize]
    exact (Yields.require rfl _).bind (Yields.pure _)
  refine connects.performs ?_
  rcases stage with ⟨discardable, seenBefore⟩ | ⟨committed, seenAfter⟩
  · refine (JournalLayout.recover_discardable discardable).mono ?_ ?_
    · intro _ final settled
      refine ⟨⟨words, data, settled⟩, Or.inl ?_⟩
      rw [seen_of_settled settled, seenBefore]
    · intro crashed discardable'
      exact ⟨words, data, sameSize, memSize,
        Or.inl ⟨discardable', seenBefore⟩⟩
  · refine (JournalLayout.recover_committed committed).mono ?_ ?_
    · intro _ final settled
      refine ⟨⟨words, data, settled⟩, Or.inr ?_⟩
      rw [seen_of_settled settled, seenAfter]
    · intro crashed committed'
      exact ⟨words, data, sameSize, memSize,
        Or.inr ⟨committed', seenAfter⟩⟩

/-- A kill leaves a memory on the way to what the completed operation would
have left. -/
theorem killed_interrupted (steady : Steady size area)
    {operation : Operation} (fits : Fits size operation)
    {remaining : Nat} {killed : Process QueueArea}
    (run : (perform (queueOf size) operation).run ⟨area, some remaining⟩ =
      .error .killed killed) :
    ∃ result completed,
      (perform (queueOf size) operation).run ⟨area, none⟩ =
        .ok result ⟨completed, none⟩ ∧
      Interrupted size (seen area) (seen completed) killed.memory := by
  obtain ⟨words, data, rfl, settled, sound⟩ := steady
  have ring := sound.ring
  rw [seen_of_settled settled]
  cases operation with
  | pushBack item =>
      by_cases refused : ringBytes words data ≠ [] ∧ data.size ≤
          (ringBytes words data).length + (record item).length
      · have yields := pushBack_refused settled ring item refused.1 refused.2
        exact absurd run (yields.attempts.map.unchanged.2 _)
      · have accepted : ringBytes words data = [] ∨
            (ringBytes words data).length + (record item).length <
              data.size := by
          by_contra neither
          push Not at neither
          exact refused neither
        have room : (ringBytes words data).length + (record item).length ≤
            data.size := by
          rcases accepted with empty | smaller
          · rw [empty, length_record, List.length_nil, Nat.zero_add]
            exact fits
          · exact Nat.le_of_lt smaller
        obtain ⟨after, performs⟩ := pushBack_performs never
          settled ring item room accepted
        obtain ⟨result, completed, completes, _, _, _, seenAfter, _⟩ :=
          (performs.mapped Result.pushed).completes
        refine ⟨result, completed, completes, ?_⟩
        rw [seenAfter]
        exact (performs.mapped _).killed run
  | popFront =>
      rcases popFront_steady settled sound with
        ⟨sOut, position, sound', performs⟩ | attempts
      · obtain ⟨result, completed, completes, _, _, _, settled'⟩ :=
          ((performs never).mapped Result.popped).completes
        refine ⟨result, completed, completes, ?_⟩
        rw [seen_of_settled settled']
        exact ((performs never).mapped _).killed run
      · exact absurd run (attempts.map.unchanged.2 _)
  | front =>
      exact absurd run ((front_attempts settled sound).map.unchanged.2 _)
  | isEmpty =>
      exact absurd run
        ((isEmpty_yields settled ring).attempts.map.unchanged.2 _)
  | elementCount =>
      exact absurd run ((elementCount_attempts settled).map.unchanged.2 _)

/-- In every state that completed operations reach: kill an operation in front
of any write, recover however often the recovery is killed, and what is seen
is what was seen before, or what the completed operation leaves. -/
theorem survives_kill {queue : TcMemQueue} {start area : QueueArea}
    {labels : List Label}
    (creation : (create (sizeofControlBlock + sizeofModifyHead + size)).run
      ⟨zeroFilled size, none⟩ = .ok queue ⟨start, none⟩)
    (run : Run (Guarded Completed (Step queue)) start labels area)
    {operation : Operation} (fits : Fits size operation)
    {remaining : Nat} {killed : Process QueueArea}
    (kill : (perform queue operation).run ⟨area, some remaining⟩ =
      .error .killed killed)
    {outcome : Except Failure QueueArea}
    (recovery : Recovery (recover size) killed.memory outcome) :
    ∃ recovered result completed, outcome = .ok recovered ∧
      (∃ words data, Settled words data recovered) ∧
      (perform queue operation).run ⟨area, none⟩ =
        .ok result ⟨completed, none⟩ ∧
      (seen recovered = seen area ∨ seen recovered = seen completed) := by
  rw [create_run] at creation
  obtain ⟨rfl, rfl⟩ : queueOf size = queue ∧ created size = start := by
    simpa using creation
  have steady : Steady size area := by
    have keeps : ∀ {first : QueueArea} {label : Label} {next : QueueArea},
        Steady size first →
        Guarded Completed (Step (queueOf size)) first label next →
        Steady size next := by
      intro first label next steady ⟨completed, step⟩
      obtain ⟨operation, outcome⟩ := label
      obtain ⟨result, rfl⟩ := completed
      exact steady_step steady step
    have initially : Steady size (created size) :=
      ⟨_, _, rfl, created_settled size, created_sound size⟩
    exact @Run.preserves _ _ _ (Steady size) keeps _ _ _ run initially
  obtain ⟨result, completed, completes, interrupted⟩ :=
    killed_interrupted steady fits kill
  obtain ⟨recovered, rfl, settled, same⟩ :=
    recovery.sound (fun _ crashed => recover_performs crashed) interrupted
  exact ⟨recovered, result, completed, rfl, settled, completes, same⟩

/-- A push onto the empty queue, killed behind the commit but before the
first copy. -/
theorem survives_kill_sixteen : ∃ killed recovered result completed,
    (perform (queueOf 16) (.pushBack [7])).run ⟨created 16, some 20⟩ =
      .error .killed killed ∧
    Recovery (recover 16) killed.memory (.ok recovered) ∧
    (perform (queueOf 16) (.pushBack [7])).run ⟨created 16, none⟩ =
      .ok result ⟨completed, none⟩ ∧
    (seen recovered = seen (created 16) ∨
      seen recovered = seen completed) := by
  have fits : Fits 16 (.pushBack [7]) := by
    show sizeofSizeT + 1 ≤ 16
    decide
  have steady : Steady 16 (created 16) :=
    ⟨_, _, rfl, created_settled 16, created_sound 16⟩
  have evaluated : (match (perform (queueOf 16) (.pushBack [7])).run
      ⟨created 16, some 20⟩ with
      | .error .killed _ => true
      | _ => false) = true := by decide +kernel
  obtain ⟨killed, kill⟩ : ∃ killed,
      (perform (queueOf 16) (.pushBack [7])).run ⟨created 16, some 20⟩ =
        .error .killed killed := by
    split at evaluated
    · next killed kill => exact ⟨killed, kill⟩
    · cases evaluated
  obtain ⟨_, _, _, interrupted⟩ := killed_interrupted steady fits kill
  obtain ⟨_, _, completes, _⟩ := (recover_performs interrupted).completes
  obtain ⟨recovered, result, completed, same, _, done, seenSame⟩ :=
    survives_kill (create_run 16) (.nil _) fits kill (.completes completes)
  cases same
  exact ⟨killed, _, result, completed, kill, .completes completes, done,
    seenSame⟩

end Kill

end MemQueue

end TarsCpp
