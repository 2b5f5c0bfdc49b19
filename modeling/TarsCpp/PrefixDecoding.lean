import Mathlib.Tactic

/-!
# Decoders over a cursor

A decoder is a stateful computation that may raise a fault.  Two judgements
about it are developed here, both over an arbitrary input state.

`Reads` says that a decoder started in front of a given byte string returns a
fixed value and stops exactly behind that string, whatever follows.
`Satisfies` is the weakest precondition of a run, with one postcondition for
normal and one for faulty termination, and `Keeps` its form for safety: every
state on the way is reached from the first, and every fault is an allowed one.
The counted loop `forCount` is the only loop; it has a rule for each
judgement, and a bound on how often its body is entered.
-/

namespace TarsCpp

/-- An input state that can stand in front of a list of symbols and be moved
over a prefix of it. -/
class PrefixInput (σ : Type) (β : outParam Type) where
  Facing : σ → List β → Prop
  advance : σ → Nat → σ
  advance_zero : ∀ state, advance state 0 = state
  advance_advance : ∀ state first second,
    advance (advance state first) second = advance state (first + second)
  facing_advance : ∀ {state front rest},
    Facing state (front ++ rest) → Facing (advance state front.length) rest

theorem PrefixInput.facing_advance_one {σ β : Type} [PrefixInput σ β]
    {state : σ} {head : β} {rest : List β}
    (facing : PrefixInput.Facing state (head :: rest)) :
    PrefixInput.Facing (PrefixInput.advance state 1) rest :=
  @PrefixInput.facing_advance σ β _ state [head] rest facing

namespace PrefixDecoding

variable {ε σ α γ β : Type}

/-- Run `body` `count` times, threading an accumulator. -/
def forCount (body : α → EStateM ε σ α) : Nat → α → EStateM ε σ α
  | 0, acc => pure acc
  | count + 1, acc => body acc >>= forCount body count

theorem forCount_add (body : α → EStateM ε σ α) (first second : Nat)
    (acc : α) :
    forCount body (first + second) acc =
      forCount body first acc >>= forCount body second := by
  induction first generalizing acc with
  | zero => rw [Nat.zero_add, forCount, pure_bind]
  | succ first induction =>
      rw [Nat.add_right_comm, forCount, forCount, bind_assoc]
      exact congrArg _ (funext induction)

/-- How often `forCount` enters its body when started in `state`. -/
def iterations (body : α → EStateM ε σ α) : Nat → α → σ → Nat
  | 0, _, _ => 0
  | count + 1, acc, state =>
      match (body acc).run state with
      | .ok next state' => iterations body count next state' + 1
      | .error _ _ => 1

section Reads

variable [PrefixInput σ β]

/-- In front of `bytes`, the decoder returns `value` and stops behind it. -/
def Reads (decoder : EStateM ε σ α) (bytes : List β) (value : α) : Prop :=
  ∀ state rest, PrefixInput.Facing state (bytes ++ rest) →
    decoder.run state = .ok value (PrefixInput.advance state bytes.length)

theorem Reads.pure (value : α) :
    Reads (Pure.pure value : EStateM ε σ α) ([] : List β) value := by
  intro state rest facing
  rw [EStateM.run_pure, List.length_nil, PrefixInput.advance_zero]

theorem Reads.bind {first : EStateM ε σ α} {next : α → EStateM ε σ γ}
    {front back : List β} {value : α} {result : γ}
    (firstReads : Reads first front value)
    (nextReads : Reads (next value) back result) :
    Reads (first >>= next) (front ++ back) result := by
  intro state rest facing
  rw [List.append_assoc] at facing
  rw [EStateM.run_bind, firstReads state _ facing]
  simp only
  rw [nextReads _ rest (PrefixInput.facing_advance facing),
    PrefixInput.advance_advance, List.length_append]

/-- The bind rule behind a decoder that consumes one element. -/
theorem Reads.bind_cons {first : EStateM ε σ α} {next : α → EStateM ε σ γ}
    {head : β} {back : List β} {value : α} {result : γ}
    (firstReads : Reads first [head] value)
    (nextReads : Reads (next value) back result) :
    Reads (first >>= next) (head :: back) result :=
  Reads.bind firstReads nextReads

theorem Reads.bind_pure {first : EStateM ε σ α} {next : α → EStateM ε σ γ}
    {bytes : List β} {value : α} {result : γ}
    (firstReads : Reads first bytes value)
    (nextReads : Reads (next value) [] result) :
    Reads (first >>= next) bytes result := by
  have whole := firstReads.bind nextReads
  rwa [List.append_nil] at whole

theorem Reads.map {decoder : EStateM ε σ α} {bytes : List β} {value : α}
    (convert : α → γ) (reads : Reads decoder bytes value) :
    Reads (convert <$> decoder) bytes (convert value) := by
  rw [map_eq_pure_bind]
  exact reads.bind_pure (Reads.pure _)

theorem Reads.of_eq {decoder : EStateM ε σ α} {bytes bytes' : List β}
    {value value' : α} (reads : Reads decoder bytes value)
    (sameBytes : bytes = bytes') (sameValue : value = value') :
    Reads decoder bytes' value' := by
  subst sameBytes
  subst sameValue
  exact reads

theorem Reads.gets (lookup : σ → γ) (decoder : γ → EStateM ε σ α)
    {bytes : List β} {value : α}
    (reads : ∀ state rest, PrefixInput.Facing state (bytes ++ rest) →
      Reads (decoder (lookup state)) bytes value) :
    Reads (do decoder (lookup (← get))) bytes value :=
  fun state rest facing => reads state rest facing state rest facing

/-- As `Reads`, but promised only where `follow` comes next. -/
def ReadsBefore (decoder : EStateM ε σ α) (bytes follow : List β)
    (value : α) : Prop :=
  ∀ state rest, PrefixInput.Facing state (bytes ++ (follow ++ rest)) →
    decoder.run state = .ok value (PrefixInput.advance state bytes.length)

theorem ReadsBefore.bind {first : EStateM ε σ α} {next : α → EStateM ε σ γ}
    {front back : List β} {value : α} {result : γ}
    (firstReads : ReadsBefore first front back value)
    (nextReads : Reads (next value) back result) :
    Reads (first >>= next) (front ++ back) result := by
  intro state rest facing
  rw [List.append_assoc] at facing
  rw [EStateM.run_bind, firstReads state _ facing]
  simp only
  rw [nextReads _ rest (PrefixInput.facing_advance facing),
    PrefixInput.advance_advance, List.length_append]

theorem Reads.bindBefore {first : EStateM ε σ α}
    {next : α → EStateM ε σ γ} {front back follow : List β} {value : α}
    {result : γ} (firstReads : Reads first front value)
    (nextReads : ReadsBefore (next value) back follow result) :
    ReadsBefore (first >>= next) (front ++ back) follow result := by
  intro state rest facing
  rw [List.append_assoc] at facing
  rw [EStateM.run_bind, firstReads state _ facing]
  simp only
  rw [nextReads _ rest (PrefixInput.facing_advance facing),
    PrefixInput.advance_advance, List.length_append]

/-- A loop over encoded items consumes their concatenation, as soon as each
turn consumes its own item; `acc` is the accumulator after a prefix. -/
theorem Reads.forCount {ι : Type} {body : α → EStateM ε σ α}
    {encode : ι → List β} {items : List ι} (acc : List ι → α)
    (turn : ∀ done item later, items = done ++ item :: later →
      Reads (body (acc done)) (encode item) (acc (done ++ [item]))) :
    Reads (forCount body items.length (acc [])) (items.flatMap encode)
      (acc items) := by
  have fromPrefix : ∀ later done, items = done ++ later →
      Reads (PrefixDecoding.forCount body later.length (acc done))
        (later.flatMap encode) (acc (done ++ later)) := by
    intro later
    induction later with
    | nil =>
        intro done _
        rw [List.append_nil]
        exact Reads.pure _
    | cons item later induction =>
        intro done split
        have following := induction (done ++ [item])
          (by rw [split, List.append_assoc, List.singleton_append])
        rw [List.append_assoc, List.singleton_append] at following
        rw [List.flatMap_cons]
        exact (turn done item later split).bind following
  exact fromPrefix items [] rfl

/-- As `Reads`, but promised only where `follows` holds of the symbols behind,
and for a value of which only `post` is known. -/
def Yields (follows : List β → Prop) (decoder : EStateM ε σ α)
    (bytes : List β) (post : α → Prop) : Prop :=
  ∀ state rest, follows rest → PrefixInput.Facing state (bytes ++ rest) →
    ∃ value, post value ∧
      decoder.run state = .ok value (PrefixInput.advance state bytes.length)

variable {follows : List β → Prop}

theorem Reads.yields {decoder : EStateM ε σ α} {bytes : List β} {value : α}
    {post : α → Prop} (reads : Reads decoder bytes value)
    (holds : post value) : Yields follows decoder bytes post :=
  fun state rest _ facing => ⟨value, holds, reads state rest facing⟩

theorem Yields.pure {value : α} {post : α → Prop} (holds : post value) :
    Yields follows (Pure.pure value : EStateM ε σ α) ([] : List β) post :=
  (Reads.pure value).yields holds

theorem Yields.mono {decoder : EStateM ε σ α} {bytes : List β}
    {post post' : α → Prop} (yields : Yields follows decoder bytes post)
    (weaker : ∀ value, post value → post' value) :
    Yields follows decoder bytes post' := by
  intro state rest follow facing
  obtain ⟨value, holds, run⟩ := yields state rest follow facing
  exact ⟨value, weaker value holds, run⟩

theorem Yields.bind {follows' : List β → Prop} {first : EStateM ε σ α}
    {next : α → EStateM ε σ γ} {front back : List β} {middle : α → Prop}
    {post : γ → Prop} (firstYields : Yields follows' first front middle)
    (behind : ∀ rest, follows rest → follows' (back ++ rest))
    (nextYields : ∀ value, middle value →
      Yields follows (next value) back post) :
    Yields follows (first >>= next) (front ++ back) post := by
  intro state rest follow facing
  rw [List.append_assoc] at facing
  obtain ⟨value, holds, run⟩ :=
    firstYields state (back ++ rest) (behind rest follow) facing
  obtain ⟨result, final, run'⟩ := nextYields value holds _ rest follow
    (PrefixInput.facing_advance facing)
  refine ⟨result, final, ?_⟩
  rw [EStateM.run_bind, run]
  simp only
  rw [run', PrefixInput.advance_advance, List.length_append]

theorem Reads.bindYields {first : EStateM ε σ α} {next : α → EStateM ε σ γ}
    {front back : List β} {value : α} {post : γ → Prop}
    (firstReads : Reads first front value)
    (nextYields : Yields follows (next value) back post) :
    Yields follows (first >>= next) (front ++ back) post := by
  have whole : Yields (fun _ => True) first front (· = value) :=
    firstReads.yields rfl
  refine whole.bind (fun _ _ => trivial) ?_
  intro value' same
  subst same
  exact nextYields

theorem ReadsBefore.bindYields {first : EStateM ε σ α}
    {next : α → EStateM ε σ γ} {front back : List β} {value : α}
    {post : γ → Prop} (firstReads : ReadsBefore first front back value)
    (nextYields : Yields follows (next value) back post) :
    Yields follows (first >>= next) (front ++ back) post := by
  intro state rest follow facing
  rw [List.append_assoc] at facing
  have run := firstReads state rest facing
  obtain ⟨result, final, run'⟩ := nextYields _ rest follow
    (PrefixInput.facing_advance facing)
  refine ⟨result, final, ?_⟩
  rw [EStateM.run_bind, run]
  simp only
  rw [run', PrefixInput.advance_advance, List.length_append]

/-- A value of which everything is known. -/
theorem Yields.reads {decoder : EStateM ε σ α} {bytes : List β} {value : α}
    (yields : Yields (fun _ => True) decoder bytes (· = value)) :
    Reads decoder bytes value := by
  intro state rest facing
  obtain ⟨value', rfl, run⟩ := yields state rest trivial facing
  exact run

/-- A loop over items with the parts that stand for them. -/
theorem Yields.forCount {ι : Type} {body : α → EStateM ε σ α}
    {each : ι → List β → Prop} {items : List ι} {parts : List (List β)}
    {acc : α} (invariant : List ι → α → Prop)
    (aligned : List.Forall₂ each items parts)
    (turn : ∀ done item part acc, each item part → invariant done acc →
      Yields (fun _ => True) (body acc) part (invariant (done ++ [item])))
    (start : invariant [] acc) :
    Yields (fun _ => True) (forCount body items.length acc) parts.flatten
      (invariant items) := by
  have fromPrefix : ∀ done acc, invariant done acc →
      Yields (fun _ => True) (PrefixDecoding.forCount body items.length acc)
        parts.flatten (invariant (done ++ items)) := by
    induction aligned with
    | nil =>
        intro done acc holds
        rw [List.append_nil]
        exact Yields.pure holds
    | @cons item part items parts here aligned induction =>
        intro done acc holds
        refine Yields.bind (turn done item part acc here holds)
          (fun _ _ => trivial) ?_
        intro next holds'
        have following := induction (done ++ [item]) next holds'
        rwa [List.append_assoc] at following
  exact fromPrefix [] acc start

theorem Yields.map {decoder : EStateM ε σ α} {bytes : List β}
    {middle : α → Prop} {post : γ → Prop} (convert : α → γ)
    (yields : Yields follows decoder bytes middle)
    (holds : ∀ value, middle value → post (convert value)) :
    Yields follows (convert <$> decoder) bytes post := by
  rw [map_eq_pure_bind, ← List.append_nil bytes]
  exact yields.bind (fun rest follow => follow)
    fun value middle => Yields.pure (holds value middle)

/-- What a decoder looks up in its state first may depend on the state only
through what is behind it. -/
theorem Yields.gets (lookup : σ → γ) (decoder : γ → EStateM ε σ α)
    {bytes : List β} {post : α → Prop}
    (yields : ∀ state rest, PrefixInput.Facing state (bytes ++ rest) →
      Yields follows (decoder (lookup state)) bytes post) :
    Yields follows (do decoder (lookup (← get))) bytes post :=
  fun state rest follow facing =>
    yields state rest facing state rest follow facing

end Reads

section Satisfies

/-- Weakest precondition of one run, for normal and faulty termination. -/
def Satisfies (decoder : EStateM ε σ α) (state : σ)
    (returns : α → σ → Prop) (faults : ε → σ → Prop) : Prop :=
  match decoder.run state with
  | .ok value state' => returns value state'
  | .error fault state' => faults fault state'

variable {returns : α → σ → Prop} {faults : ε → σ → Prop} {state : σ}

@[simp] theorem satisfies_pure (value : α) :
    Satisfies (Pure.pure value : EStateM ε σ α) state returns faults ↔
      returns value state := by
  rfl

@[simp] theorem satisfies_throw (fault : ε) :
    Satisfies (throw fault : EStateM ε σ α) state returns faults ↔
      faults fault state := by
  rfl

theorem satisfies_bind {first : EStateM ε σ γ} {next : γ → EStateM ε σ α} :
    Satisfies (first >>= next) state returns faults ↔
      Satisfies first state
        (fun value state' => Satisfies (next value) state' returns faults)
        faults := by
  unfold Satisfies
  rw [EStateM.run_bind]
  cases first.run state <;> rfl

theorem Satisfies.mono {decoder : EStateM ε σ α}
    {returns' : α → σ → Prop} {faults' : ε → σ → Prop}
    (holds : Satisfies decoder state returns faults)
    (weakerReturns : ∀ value state', returns value state' →
      returns' value state')
    (weakerFaults : ∀ fault state', faults fault state' →
      faults' fault state') :
    Satisfies decoder state returns' faults' := by
  unfold Satisfies at holds ⊢
  cases result : decoder.run state with
  | ok value state' =>
      rw [result] at holds
      exact weakerReturns value state' holds
  | error fault state' =>
      rw [result] at holds
      exact weakerFaults fault state' holds

/-- Sequencing rule: prove the first part, then the second from whatever the
first part established. -/
theorem Satisfies.bind {first : EStateM ε σ γ} {next : γ → EStateM ε σ α}
    {middle : γ → σ → Prop} {faults' : ε → σ → Prop}
    (firstHolds : Satisfies first state middle faults')
    (nextHolds : ∀ value state', middle value state' →
      Satisfies (next value) state' returns faults)
    (weaker : ∀ fault state', faults' fault state' → faults fault state') :
    Satisfies (first >>= next) state returns faults :=
  satisfies_bind.mpr (firstHolds.mono nextHolds weaker)

end Satisfies

section Keeps

/-- However a run from `state` ends, it ends in a state that `state` reaches;
a normal end satisfies `post`, and a fault is an allowed one. -/
def Keeps (reaches : σ → σ → Prop) (allowed : ε → Prop)
    (decoder : EStateM ε σ α) (state : σ) (post : α → σ → Prop) : Prop :=
  Satisfies decoder state
    (fun value after => reaches state after ∧ post value after)
    (fun fault after => reaches state after ∧ allowed fault)

variable {reaches : σ → σ → Prop} {allowed : ε → Prop} {state : σ}
  {post : α → σ → Prop}

theorem Keeps.mono {decoder : EStateM ε σ α} {post' : α → σ → Prop}
    (keeps : Keeps reaches allowed decoder state post)
    (weaker : ∀ value after, reaches state after → post value after →
      post' value after) :
    Keeps reaches allowed decoder state post' :=
  Satisfies.mono keeps
    (fun value after holds => ⟨holds.1, weaker value after holds.1 holds.2⟩)
    (fun _ _ faulty => faulty)

variable [IsPreorder σ reaches]

theorem Keeps.pure {value : α} (holds : post value state) :
    Keeps reaches allowed (Pure.pure value) state post := by
  rw [Keeps, satisfies_pure]
  exact ⟨Std.Refl.refl state, holds⟩

theorem Keeps.throw {fault : ε} (permitted : allowed fault) :
    Keeps reaches allowed (throw fault) state post := by
  rw [Keeps, satisfies_throw]
  exact ⟨Std.Refl.refl state, permitted⟩

theorem Keeps.bind {first : EStateM ε σ γ} {next : γ → EStateM ε σ α}
    {middle : γ → σ → Prop}
    (firstKeeps : Keeps reaches allowed first state middle)
    (nextKeeps : ∀ value after, reaches state after → middle value after →
      Keeps reaches allowed (next value) after post) :
    Keeps reaches allowed (first >>= next) state post := by
  refine satisfies_bind.mpr
    (Satisfies.mono firstKeeps ?_ fun _ _ faulty => faulty)
  intro value after ⟨reached, holds⟩
  refine Satisfies.mono (nextKeeps value after reached holds) ?_ ?_
  · intro result final ⟨later, done⟩
    exact ⟨IsTrans.trans _ _ _ reached later, done⟩
  · intro fault final ⟨later, permitted⟩
    exact ⟨IsTrans.trans _ _ _ reached later, permitted⟩

theorem Keeps.get :
    Keeps reaches allowed (get : EStateM ε σ σ) state
      (fun value after => value = state ∧ after = state) :=
  ⟨Std.Refl.refl state, rfl, rfl⟩

theorem Keeps.map {decoder : EStateM ε σ γ} {post' : γ → σ → Prop}
    (convert : γ → α) (keeps : Keeps reaches allowed decoder state post')
    (weaker : ∀ value after, reaches state after → post' value after →
      post (convert value) after) :
    Keeps reaches allowed (convert <$> decoder) state post := by
  rw [map_eq_pure_bind]
  exact keeps.bind fun value after reached holds =>
    Keeps.pure (weaker value after reached holds)

/-- Loop rule: it is enough that every turn behaves, wherever it starts. -/
theorem Keeps.forCount {body : α → EStateM ε σ α}
    (turn : ∀ acc after, reaches state after →
      Keeps reaches allowed (body acc) after (fun _ _ => True)) :
    ∀ count acc, Keeps reaches allowed (PrefixDecoding.forCount body count acc)
      state (fun _ _ => True) := by
  have fromReached : ∀ count acc after, reaches state after →
      Keeps reaches allowed (PrefixDecoding.forCount body count acc) after
        (fun _ _ => True) := by
    intro count
    induction count with
    | zero =>
        intro acc after _
        exact Keeps.pure trivial
    | succ count induction =>
        intro acc after reached
        exact (turn acc after reached).bind fun next final later _ =>
          induction next final (IsTrans.trans _ _ _ reached later)
  intro count acc
  exact fromReached count acc state (Std.Refl.refl state)

/-- If every completed turn lowers a measure, the body is entered at most once
more than the measure allows, whatever the loop count says. -/
theorem iterations_le {body : α → EStateM ε σ α} (measure : σ → Nat)
    (turn : ∀ acc after, reaches state after →
      Keeps reaches allowed (body acc) after
        (fun _ next => measure next < measure after)) :
    ∀ count acc, iterations body count acc state ≤ measure state + 1 := by
  have fromReached : ∀ count acc after, reaches state after →
      iterations body count acc after ≤ measure after + 1 := by
    intro count
    induction count with
    | zero =>
        intro acc after _
        exact Nat.zero_le _
    | succ count induction =>
        intro acc after reached
        have turned := turn acc after reached
        unfold Keeps Satisfies at turned
        unfold iterations
        cases result : (body acc).run after with
        | ok next final =>
            rw [result] at turned
            obtain ⟨later, lowered⟩ := turned
            have following := induction next final
              (IsTrans.trans _ _ _ reached later)
            simp only
            omega
        | error fault final => exact Nat.le_add_left 1 _
  intro count acc
  exact fromReached count acc state (Std.Refl.refl state)

end Keeps

end PrefixDecoding

end TarsCpp
