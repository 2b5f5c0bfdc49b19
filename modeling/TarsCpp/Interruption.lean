import TarsCpp.PrefixDecoding

/-!
# Tasks that may be killed

A task reads and writes a memory that outlives it.  The process that runs it
may be killed: it is given a number of writes it can still complete, and stops
in front of the next one.  What is not written is lost, what is written stays.

`Performs` is the crash logic of such tasks.  It promises a postcondition for
the run that completes, a crash condition for every memory that a kill can
leave, and which failures may be raised.  A recovery is a task that is run again
until it completes; if it reestablishes its own crash condition, it may be
killed any number of times.
-/

namespace TarsCpp

namespace Interruption

open PrefixDecoding

variable {ε μ α β : Type}

inductive Stop (ε : Type)
  | killed
  | raised (failure : ε)
deriving DecidableEq, Repr

/-- A memory and the writes left before the kill; `none` is never killed. -/
structure Process (μ : Type) where
  memory : μ
  remaining : Option Nat

abbrev Task (ε μ α : Type) := EStateM (Stop ε) (Process μ) α

def read (look : μ → α) : Task ε μ α :=
  fun process => .ok (look process.memory) process

def write (change : μ → μ) : Task ε μ Unit :=
  fun process =>
    match process.remaining with
    | none => .ok () ⟨change process.memory, none⟩
    | some 0 => .error .killed process
    | some (remaining + 1) =>
        .ok () ⟨change process.memory, some remaining⟩

def raise (failure : ε) : Task ε μ α :=
  throw (.raised failure)

/-- Go on only where the condition holds. -/
def require (condition : Prop) [Decidable condition] (failure : ε) :
    Task ε μ Unit :=
  if condition then pure () else raise failure

/-- Whatever the number of writes left, a run from `memory` returns as
promised, is killed in a memory with the crash condition, or raises an allowed
failure. -/
def Performs (allowed : ε → Prop) (task : Task ε μ α) (memory : μ)
    (returns : α → μ → Prop) (crashes : μ → Prop) : Prop :=
  ∀ remaining, Satisfies task ⟨memory, remaining⟩
    (fun value after => returns value after.memory ∧
      (remaining = none → after.remaining = none))
    (fun stop after =>
      match stop with
      | .killed => remaining ≠ none ∧ crashes after.memory
      | .raised failure => allowed failure)

/-- The task returns this value and writes nothing, so that it cannot be
killed either. -/
def Yields (task : Task ε μ α) (memory : μ) (value : α) : Prop :=
  ∀ remaining,
    task.run ⟨memory, remaining⟩ = .ok value ⟨memory, remaining⟩

/-- No failure is allowed. -/
abbrev never (_ : ε) : Prop := False

/-- Every failure is allowed: what is promised is promised of the runs that
complete. -/
abbrev anyFailure (_ : ε) : Prop := True

section Yields

variable {memory : μ}

theorem Yields.pure (value : α) :
    Yields (Pure.pure value : Task ε μ α) memory value :=
  fun _ => rfl

theorem Yields.read (look : μ → α) :
    Yields (Interruption.read look : Task ε μ α) memory (look memory) :=
  fun _ => rfl

theorem Yields.require {condition : Prop} [Decidable condition]
    (met : condition) (failure : ε) :
    Yields (Interruption.require condition failure : Task ε μ Unit) memory
      () := by
  rw [Interruption.require, if_pos met]
  exact Yields.pure ()

theorem Yields.bind {first : Task ε μ β} {next : β → Task ε μ α} {value : β}
    {result : α} (yields : Yields first memory value)
    (following : Yields (next value) memory result) :
    Yields (first >>= next) memory result := by
  intro remaining
  rw [EStateM.run_bind, yields remaining]
  exact following remaining

/-- Two tasks that cannot be told apart from this memory on. -/
def SameRun (task task' : Task ε μ α) (memory : μ) : Prop :=
  ∀ remaining,
    task.run ⟨memory, remaining⟩ = task'.run ⟨memory, remaining⟩

theorem SameRun.refl {task : Task ε μ α} : SameRun task task memory :=
  fun _ => rfl

theorem SameRun.symm {task task' : Task ε μ α}
    (same : SameRun task task' memory) : SameRun task' task memory :=
  fun remaining => (same remaining).symm

theorem SameRun.trans {task task' task'' : Task ε μ α}
    (first : SameRun task task' memory)
    (second : SameRun task' task'' memory) : SameRun task task'' memory :=
  fun remaining => (first remaining).trans (second remaining)

theorem SameRun.yields {task task' : Task ε μ α} {value : α}
    (same : SameRun task task' memory) (yields : Yields task' memory value) :
    Yields task memory value :=
  fun remaining => (same remaining).trans (yields remaining)

/-- A first part that does not write is not noticed. -/
theorem Yields.skip {first : Task ε μ β} {next : β → Task ε μ α} {value : β}
    (yields : Yields first memory value) :
    SameRun (first >>= next) (next value) memory := by
  intro remaining
  rw [EStateM.run_bind, yields remaining]

theorem SameRun.bind {first first' : Task ε μ β} {next : β → Task ε μ α}
    (same : SameRun first first' memory) :
    SameRun (first >>= next) (first' >>= next) memory := by
  intro remaining
  rw [EStateM.run_bind, EStateM.run_bind, same remaining]

theorem Yields.map {task : Task ε μ β} {value : β} (convert : β → α)
    (yields : Yields task memory value) :
    Yields (convert <$> task) memory (convert value) := by
  rw [map_eq_pure_bind]
  exact yields.bind (Yields.pure _)

/-- Without a write, the task returns a good value or raises a failure; which
of them does not depend on the number of writes left. -/
def Attempts (task : Task ε μ α) (memory : μ) (good : α → Prop) : Prop :=
  (∃ value, Yields task memory value ∧ good value) ∨
    ∃ failure, ∀ remaining, task.run ⟨memory, remaining⟩ =
      .error (.raised failure) ⟨memory, remaining⟩

theorem Yields.attempts {task : Task ε μ α} {value : α}
    (yields : Yields task memory value) :
    Attempts task memory (fun answer => answer = value) :=
  Or.inl ⟨value, yields, rfl⟩

theorem Attempts.pure {value : α} {good : α → Prop} (holds : good value) :
    Attempts (Pure.pure value : Task ε μ α) memory good :=
  Or.inl ⟨value, Yields.pure value, holds⟩

theorem Attempts.require (condition : Prop) [Decidable condition]
    (failure : ε) :
    Attempts (Interruption.require condition failure : Task ε μ Unit) memory
      (fun _ => condition) := by
  by_cases met : condition
  · exact Or.inl ⟨(), Yields.require met failure, met⟩
  · refine Or.inr ⟨failure, fun remaining => ?_⟩
    rw [Interruption.require, if_neg met]
    rfl

theorem Attempts.bind {first : Task ε μ β} {next : β → Task ε μ α}
    {good : β → Prop} {good' : α → Prop}
    (attempts : Attempts first memory good)
    (following : ∀ value, good value → Attempts (next value) memory good') :
    Attempts (first >>= next) memory good' := by
  rcases attempts with ⟨value, yields, holds⟩ | ⟨failure, fails⟩
  · rcases following value holds with
      ⟨result, yields', holds'⟩ | ⟨failure, fails⟩
    · exact Or.inl ⟨result, yields.bind yields', holds'⟩
    · refine Or.inr ⟨failure, fun remaining => ?_⟩
      rw [EStateM.run_bind, yields remaining]
      exact fails remaining
  · refine Or.inr ⟨failure, fun remaining => ?_⟩
    rw [EStateM.run_bind, fails remaining]

theorem Attempts.map {task : Task ε μ β} {convert : β → α} {good : β → Prop}
    (attempts : Attempts task memory good) :
    Attempts (convert <$> task) memory (fun _ => True) := by
  rw [map_eq_pure_bind]
  exact attempts.bind fun _ _ => Attempts.pure trivial

theorem Attempts.any {task : Task ε μ α} {good : α → Prop}
    (attempts : Attempts task memory good) :
    Attempts task memory (fun _ => True) :=
  attempts.imp_left fun ⟨value, yields, _⟩ => ⟨value, yields, trivial⟩

theorem Attempts.unchanged {task : Task ε μ α} {good : α → Prop}
    (attempts : Attempts task memory good) {remaining : Option Nat} :
    (∀ value after, task.run ⟨memory, remaining⟩ = .ok value after →
      after.memory = memory) ∧
    ∀ after, task.run ⟨memory, remaining⟩ ≠ .error .killed after := by
  rcases attempts with ⟨value, yields, _⟩ | ⟨failure, fails⟩
  · rw [yields remaining]
    refine ⟨?_, fun after run => by cases run⟩
    intro value' after run
    cases run
    rfl
  · rw [fails remaining]
    constructor
    · intro value after run
      cases run
    · intro after run
      cases run

end Yields

section Rules

variable {allowed : ε → Prop} {memory : μ} {returns : α → μ → Prop}
  {crashes : μ → Prop}

theorem Performs.pure {value : α} (holds : returns value memory) :
    Performs allowed (Pure.pure value : Task ε μ α) memory returns
      crashes := by
  intro remaining
  exact ⟨holds, fun unlimited => unlimited⟩

theorem Performs.mono {task : Task ε μ α} {returns' : α → μ → Prop}
    {crashes' : μ → Prop}
    (performs : Performs allowed task memory returns crashes)
    (weakerReturns : ∀ value after, returns value after →
      returns' value after)
    (weakerCrashes : ∀ after, crashes after → crashes' after) :
    Performs allowed task memory returns' crashes' := by
  intro remaining
  refine (performs remaining).mono ?_ ?_
  · intro value after ⟨holds, unlimited⟩
    exact ⟨weakerReturns value _ holds, unlimited⟩
  · intro stop after stopped
    cases stop with
    | killed => exact ⟨stopped.1, weakerCrashes _ stopped.2⟩
    | raised failure => exact stopped

theorem Performs.bind {first : Task ε μ β} {next : β → Task ε μ α}
    {p : β → μ → Prop} (performs : Performs allowed first memory p crashes)
    (following : ∀ value after, p value after →
      Performs allowed (next value) after returns crashes) :
    Performs allowed (first >>= next) memory returns crashes := by
  intro remaining
  refine satisfies_bind.mpr ((performs remaining).mono ?_ ?_)
  · intro value between ⟨holds, unlimited⟩
    refine (following value between.memory holds between.remaining).mono ?_ ?_
    · intro result after ⟨holds', unlimited'⟩
      exact ⟨holds', fun none => unlimited' (unlimited none)⟩
    · intro stop after stopped
      cases stop with
      | killed =>
          exact ⟨fun none => stopped.1 (unlimited none), stopped.2⟩
      | raised failure => exact stopped
  · intro stop after stopped
    exact stopped

theorem SameRun.performs {task task' : Task ε μ α}
    (same : SameRun task task' memory)
    (performs : Performs allowed task' memory returns crashes) :
    Performs allowed task memory returns crashes := by
  intro remaining
  have satisfied := performs remaining
  unfold Satisfies at satisfied ⊢
  rw [same remaining]
  exact satisfied

theorem Performs.mapped {task : Task ε μ β} (convert : β → α)
    {returns : β → μ → Prop}
    (performs : Performs allowed task memory returns crashes) :
    Performs allowed (convert <$> task) memory
      (fun result after =>
        ∃ value, result = convert value ∧ returns value after) crashes := by
  rw [map_eq_pure_bind]
  apply Performs.bind performs
  intro value after holds
  exact Performs.pure ⟨value, rfl, holds⟩

/-- A kill in front of a write leaves the memory as it was. -/
theorem Performs.write {change : μ → μ} {returns : Unit → μ → Prop}
    (before : crashes memory) (holds : returns () (change memory)) :
    Performs allowed (Interruption.write change : Task ε μ Unit) memory
      returns crashes := by
  intro remaining
  cases remaining with
  | none => exact ⟨holds, fun _ => rfl⟩
  | some remaining =>
      cases remaining with
      | zero => exact ⟨Option.some_ne_none 0, before⟩
      | succ remaining =>
          exact ⟨holds, fun absurdity => absurd absurdity
            (Option.some_ne_none _)⟩

theorem Performs.ite {condition : Prop} [Decidable condition]
    {first second : Task ε μ α}
    (positive : condition → Performs allowed first memory returns crashes)
    (negative : ¬condition →
      Performs allowed second memory returns crashes) :
    Performs allowed (if condition then first else second) memory returns
      crashes := by
  split
  · next holds => exact positive holds
  · next fails => exact negative fails

/-- Sequencing where the first part does not write. -/
theorem Yields.performs {first : Task ε μ β} {next : β → Task ε μ α}
    {value : β} (yields : Yields first memory value)
    (following : Performs allowed (next value) memory returns crashes) :
    Performs allowed (first >>= next) memory returns crashes := by
  intro remaining
  have continued := following remaining
  unfold Satisfies at continued ⊢
  rw [EStateM.run_bind, yields remaining]
  exact continued

theorem Yields.concludes {task : Task ε μ α} {value : α}
    (yields : Yields task memory value) (holds : returns value memory) :
    Performs allowed task memory returns crashes := by
  intro remaining
  unfold Satisfies
  rw [yields remaining]
  exact ⟨holds, fun unlimited => unlimited⟩

theorem Performs.bindRead {look : μ → β} {next : β → Task ε μ α}
    (following :
      Performs allowed (next (look memory)) memory returns crashes) :
    Performs allowed (Interruption.read look >>= next) memory returns
      crashes :=
  (Yields.read look).performs following

/-- Sequencing where the first part writes once. -/
theorem Performs.bindWrite {change : μ → μ} {next : Unit → Task ε μ α}
    (before : crashes memory)
    (following :
      Performs allowed (next ()) (change memory) returns crashes) :
    Performs allowed (Interruption.write change >>= next) memory returns
      crashes := by
  refine Performs.bind (p := fun _ after => after = change memory)
    (Performs.write before rfl) ?_
  rintro ⟨⟩ after rfl
  exact following

theorem Performs.bindRequire {condition : Prop} [Decidable condition]
    {failure : ε} {next : Unit → Task ε μ α} (met : condition)
    (following : Performs allowed (next ()) memory returns crashes) :
    Performs allowed (Interruption.require condition failure >>= next) memory
      returns crashes :=
  (Yields.require met failure).performs following

/-- Sequencing where the first part checks a condition that may fail. -/
theorem Performs.bindCheck {condition : Prop} [Decidable condition]
    {failure : ε} {next : Unit → Task ε μ α}
    (unmet : ¬condition → allowed failure)
    (following : condition →
      Performs allowed (next ()) memory returns crashes) :
    Performs allowed (Interruption.require condition failure >>= next) memory
      returns crashes := by
  by_cases met : condition
  · exact Performs.bindRequire met (following met)
  · intro remaining
    unfold Interruption.require
    rw [if_neg met]
    exact unmet met

/-- Loop rule: `p` holds of the turns made and the memory. -/
theorem Performs.forEach {items : List β} {body : β → Task ε μ PUnit}
    {p : List β → μ → Prop}
    (turn : ∀ done item later after, items = done ++ item :: later →
      p done after →
      Performs allowed (body item) after
        (fun _ next => p (done ++ [item]) next) crashes)
    (initially : p [] memory) :
    Performs allowed (forM items body : Task ε μ PUnit) memory
      (fun _ after => p items after) crashes := by
  have fromPrefix : ∀ later done after, items = done ++ later →
      p done after →
      Performs allowed (forM later body : Task ε μ PUnit) after
        (fun _ final => p items final) crashes := by
    intro later
    induction later with
    | nil =>
        intro done after split holds
        rw [List.append_nil] at split
        rw [List.forM_nil]
        exact Performs.pure (split ▸ holds)
    | cons item later induction =>
        intro done after split holds
        rw [List.forM_cons]
        refine Performs.bind (turn done item later after split holds) ?_
        intro _ next holds'
        exact induction (done ++ [item]) next
          (by rw [split, List.append_assoc, List.singleton_append]) holds'
  exact fromPrefix items [] memory rfl initially

theorem Performs.forRange {count : Nat} {body : Nat → Task ε μ PUnit}
    {p : Nat → μ → Prop}
    (turn : ∀ i after, i < count → p i after →
      Performs allowed (body i) after (fun _ next => p (i + 1) next) crashes)
    (initially : p 0 memory) :
    Performs allowed (forM (List.range count) body : Task ε μ PUnit) memory
      (fun _ after => p count after) crashes := by
  have counted : (∀ done i later after,
      List.range count = done ++ i :: later → p done.length after →
      Performs allowed (body i) after
        (fun _ next => p (done ++ [i]).length next) crashes) →
      Performs allowed (forM (List.range count) body : Task ε μ PUnit) memory
        (fun _ after => p (List.range count).length after) crashes :=
    fun turn => Performs.forEach turn initially
  rw [List.length_range] at counted
  refine counted ?_
  intro done i later after split holds
  have position : i = done.length := by
    have found : (List.range count)[done.length]? = some i := by
      rw [split, List.getElem?_append_right (Nat.le_refl _),
        Nat.sub_self, List.getElem?_cons_zero]
    obtain ⟨_, found⟩ := List.getElem?_eq_some_iff.mp found
    rw [List.getElem_range] at found
    exact found.symm
  subst position
  have inside : done.length < count := by
    have total := congrArg List.length split
    rw [List.length_range, List.length_append, List.length_cons] at total
    omega
  rw [List.length_append]
  exact turn _ after inside holds

end Rules

section Runs

variable {allowed : ε → Prop} {task : Task ε μ α} {memory : μ}
  {returns : α → μ → Prop} {crashes : μ → Prop}

/-- A run that is never killed and may not fail completes. -/
theorem Performs.completes
    (performs : Performs never task memory returns crashes) :
    ∃ value after, task.run ⟨memory, none⟩ = .ok value ⟨after, none⟩ ∧
      returns value after := by
  have satisfied := performs none
  unfold Satisfies at satisfied
  cases result : task.run ⟨memory, none⟩ with
  | ok value after =>
      rw [result] at satisfied
      obtain ⟨holds, unlimited⟩ := satisfied
      obtain ⟨after, remaining⟩ := after
      obtain rfl : remaining = none := unlimited rfl
      exact ⟨value, after, rfl, holds⟩
  | error stop after =>
      rw [result] at satisfied
      cases stop with
      | killed => exact absurd rfl satisfied.1
      | raised failure => exact satisfied.elim

theorem Performs.returned
    (performs : Performs allowed task memory returns crashes)
    {remaining : Option Nat} {value : α} {after : Process μ}
    (run : task.run ⟨memory, remaining⟩ = .ok value after) :
    returns value after.memory := by
  have satisfied := performs remaining
  unfold Satisfies at satisfied
  rw [run] at satisfied
  exact satisfied.1

theorem Performs.killed
    (performs : Performs allowed task memory returns crashes)
    {remaining : Option Nat} {after : Process μ}
    (run : task.run ⟨memory, remaining⟩ = .error .killed after) :
    crashes after.memory := by
  have satisfied := performs remaining
  unfold Satisfies at satisfied
  rw [run] at satisfied
  exact satisfied.2

theorem Performs.raised
    (performs : Performs allowed task memory returns crashes)
    {remaining : Option Nat} {failure : ε} {after : Process μ}
    (run : task.run ⟨memory, remaining⟩ = .error (.raised failure) after) :
    allowed failure := by
  have satisfied := performs remaining
  unfold Satisfies at satisfied
  rw [run] at satisfied
  exact satisfied

end Runs

/-- The outcomes of a recovery that is started again after every kill. -/
inductive Recovery (recover : Task ε μ α) : μ → Except ε μ → Prop
  | completes {memory remaining value after} :
      recover.run ⟨memory, remaining⟩ = .ok value after →
      Recovery recover memory (.ok after.memory)
  | fails {memory remaining failure after} :
      recover.run ⟨memory, remaining⟩ = .error (.raised failure) after →
      Recovery recover memory (.error failure)
  | again {memory remaining between outcome} :
      recover.run ⟨memory, remaining⟩ = .error .killed between →
      Recovery recover between.memory outcome →
      Recovery recover memory outcome

/-- A recovery that keeps its crash condition ends well, however often it is
killed. -/
theorem Recovery.sound {recover : Task ε μ α} {crashes restored : μ → Prop}
    (performs : ∀ memory, crashes memory →
      Performs never recover memory (fun _ after => restored after) crashes)
    {memory : μ} {outcome : Except ε μ}
    (recovery : Recovery recover memory outcome) (crashed : crashes memory) :
    ∃ after, outcome = .ok after ∧ restored after := by
  induction recovery with
  | completes run =>
      exact ⟨_, rfl, (performs _ crashed).returned run⟩
  | fails run =>
      exact ((performs _ crashed).raised run).elim
  | again run _ induction =>
      exact induction ((performs _ crashed).killed run)

end Interruption

end TarsCpp
