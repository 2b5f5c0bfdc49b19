import TarsCpp.Promise.Lists

/-!
# The futures that `then` returns

The future of a continuation is completed when its `SequentialWatcher` replies
or, if the continuation has returned a future, by the one continuation that
forwards the result of that future.
-/

namespace TarsCpp.Promise

variable {α : Type}

namespace System

/-- Where the results of derived futures come from. -/
structure Derived (system : System α) : Prop where
  pending : ∀ id, (system.watchers id).status ≠ .absent →
    (system.watchers id).status ≠ .finished →
    (system.futures (system.watchers id).derived).result = none
  settled : ∀ id outcome, (system.watchers id).status = .finished →
    (system.watchers id).outcome = some outcome →
    (∀ returned, outcome ≠ .future (some returned)) →
    (system.futures (system.watchers id).derived).result =
      some outcome.result
  followed : ∀ id returned, (system.watchers id).status = .finished →
    (system.watchers id).outcome = some (.future (some returned)) →
    ∃ forwarder, (system.watchers id).forwarder = some forwarder
  forwarder : ∀ id forwarder,
    (system.watchers id).forwarder = some forwarder →
    (system.watchers id).status = .finished ∧
      (system.watchers id).outcome =
        some (.future (some (system.watchers forwarder).source)) ∧
      (system.watchers forwarder).callback =
        .forward (system.watchers id).derived
  forwarded : ∀ forwarder promise,
    (system.watchers forwarder).callback = .forward promise →
    ∃ id, (system.watchers id).derived = promise ∧
      (system.watchers id).forwarder = some forwarder
  waiting : ∀ id forwarder,
    (system.watchers id).forwarder = some forwarder →
    (system.watchers forwarder).status.concluded = false →
    (system.futures (system.watchers id).derived).result = none
  result : ∀ id forwarder,
    (system.watchers id).forwarder = some forwarder →
    (system.watchers forwarder).status.concluded = true →
    (system.futures (system.watchers id).derived).result =
      (system.futures (system.watchers forwarder).source).result

variable {system next : System α} {id : ℕ}

theorem present_of_finished {status : Status} (finished : status = .finished) :
    status ≠ .absent := by
  rw [finished]
  simp

/-- A continuation has the future that it is derived from for its own. -/
theorem Refs.derived_injective (refs : system.Refs) {first second : ℕ}
    (present : (system.watchers first).status ≠ .absent)
    (present' : (system.watchers second).status ≠ .absent)
    (same : (system.watchers first).derived =
      (system.watchers second).derived) : first = second := by
  have owner := refs.owner first present
  rw [same, refs.owner second present'] at owner
  exact (Owner.watcher.inj owner).symm

theorem Derived.forwarder_present (derived : system.Derived)
    (refs : system.Refs) {id forwarder : ℕ}
    (found : (system.watchers id).forwarder = some forwarder) :
    (system.watchers forwarder).status ≠ .absent := by
  intro absent
  have callback := (derived.forwarder id forwarder found).2.2
  rw [refs.absent forwarder absent] at callback
  cases callback

/-- Continuations that go on in between, and futures that keep their results. -/
theorem Derived.keeps (derived : system.Derived)
    (same : ∀ id, (next.watchers id).source = (system.watchers id).source ∧
      (next.watchers id).callback = (system.watchers id).callback ∧
      (next.watchers id).derived = (system.watchers id).derived ∧
      (next.watchers id).outcome = (system.watchers id).outcome ∧
      (next.watchers id).forwarder = (system.watchers id).forwarder)
    (status : ∀ id,
      ((next.watchers id).status = .absent ↔
        (system.watchers id).status = .absent) ∧
      ((next.watchers id).status = .finished ↔
        (system.watchers id).status = .finished) ∧
      (next.watchers id).status.concluded =
        (system.watchers id).status.concluded)
    (results : ∀ id, (next.futures id).result = (system.futures id).result) :
    next.Derived := by
  constructor
  · intro id present unfinished
    rw [results, (same id).2.2.1]
    exact derived.pending id (fun absent => present ((status id).1.mpr absent))
      fun finished => unfinished ((status id).2.1.mpr finished)
  · intro id outcome finished found
    rw [results, (same id).2.2.1]
    rw [(same id).2.2.2.1] at found
    exact derived.settled id outcome ((status id).2.1.mp finished) found
  · intro id returned finished found
    rw [(same id).2.2.2.1] at found
    rw [(same id).2.2.2.2]
    exact derived.followed id returned ((status id).2.1.mp finished) found
  · intro id forwarder found
    rw [(same id).2.2.2.2] at found
    rw [(same id).2.2.2.1, (same forwarder).1, (same forwarder).2.1,
      (same id).2.2.1, (status id).2.1]
    exact derived.forwarder id forwarder found
  · intro forwarder promise found
    rw [(same forwarder).2.1] at found
    obtain ⟨id, derived_, forwarder_⟩ := derived.forwarded forwarder promise
      found
    exact ⟨id, (same id).2.2.1.trans derived_,
      (same id).2.2.2.2.trans forwarder_⟩
  · intro id forwarder found waits
    rw [(same id).2.2.2.2] at found
    rw [(status forwarder).2.2] at waits
    rw [results, (same id).2.2.1]
    exact derived.waiting id forwarder found waits
  · intro id forwarder found done
    rw [(same id).2.2.2.2] at found
    rw [(status forwarder).2.2] at done
    rw [results, results, (same id).2.2.1, (same forwarder).1]
    exact derived.result id forwarder found done

/-- A future that is no derived one changes before it is complete. -/
theorem Derived.setFuture (derived : system.Derived) (refs : system.Refs)
    {future : FutureImpl α}
    (unowned : ∀ watcher, (system.futures id).owner ≠ .watcher watcher)
    (open_ : (system.futures id).result = none) :
    (system.setFuture id future).Derived := by
  have elsewhere : ∀ watcher, (system.watchers watcher).status ≠ .absent →
      (system.watchers watcher).derived ≠ id := by
    intro watcher present same
    exact unowned watcher (same ▸ refs.owner watcher present)
  have kept : ∀ watcher, (system.watchers watcher).status ≠ .absent →
      ((system.setFuture id future).futures
        (system.watchers watcher).derived).result =
          (system.futures (system.watchers watcher).derived).result := by
    intro watcher present
    simp only [System.setFuture, Function.update_apply,
      if_neg (elsewhere watcher present)]
  refine ⟨?_, ?_, derived.followed, derived.forwarder, derived.forwarded, ?_,
    ?_⟩
  · intro watcher present unfinished
    exact (kept watcher present).trans
      (derived.pending watcher present unfinished)
  · intro watcher outcome finished found direct
    exact (kept watcher (present_of_finished finished)).trans
      (derived.settled watcher outcome finished found direct)
  · intro watcher forwarder found waits
    have finished := (derived.forwarder watcher forwarder found).1
    exact (kept watcher (present_of_finished finished)).trans
      (derived.waiting watcher forwarder found waits)
  · intro watcher forwarder found done
    have finished := (derived.forwarder watcher forwarder found).1
    have ready := refs.ready forwarder (Status.invoked_of_concluded done)
    have other : (system.watchers forwarder).source ≠ id := by
      intro same
      rw [same, open_] at ready
      cases ready
    refine (kept watcher (present_of_finished finished)).trans ?_
    change _ = ((system.setFuture id future).futures
      (system.watchers forwarder).source).result
    simp only [System.setFuture, Function.update_apply, if_neg other]
    exact derived.result watcher forwarder found done

theorem Derived.registered (derived : system.Derived) (refs : system.Refs)
    (lists : system.Lists) {source made : ℕ} {callback : Callback}
    (fresh : system.Fresh source id made)
    (direct : ∀ promise, callback ≠ .forward promise) :
    (system.registered source id made callback).Derived := by
  have absent := refs.absent id fresh.watcher
  have empty := lists.free made fresh.derived
  have created : (system.setFuture made { owner := .watcher id }).Derived := by
    apply derived.setFuture refs
    · intro watcher
      rw [fresh.derived]
      simp
    · rw [empty]
  have others : ∀ other, (system.watchers other).status ≠ .absent →
      other ≠ id := by
    rintro other present rfl
    exact present fresh.watcher
  have kept : ∀ other, other ≠ id →
      (system.registered source id made callback).watchers other =
        system.watchers other := by
    intro other distinct
    simp only [System.registered, System.setWatcher, System.setFuture,
      Function.update_apply, if_neg distinct]
  have new_ : (system.registered source id made callback).watchers id =
      { source, callback, derived := made, status := .checking } := by
    simp [System.registered, System.setWatcher]
  have results : ∀ future,
      ((system.registered source id made callback).futures future).result =
        (system.futures future).result := by
    intro future
    simp only [System.registered, System.setWatcher, System.setFuture,
      Function.update_apply]
    split
    · next same =>
        rw [same, empty]
    · rfl
  constructor
  · intro other present unfinished
    by_cases same : other = id
    · subst same
      rw [results, new_, empty]
    · rw [kept other same] at present unfinished ⊢
      rw [results]
      exact derived.pending other present unfinished
  · intro other outcome finished found
    by_cases same : other = id
    · subst same
      rw [new_] at finished
      cases finished
    · rw [kept other same] at finished found ⊢
      rw [results]
      exact derived.settled other outcome finished found
  · intro other returned finished found
    by_cases same : other = id
    · subst same
      rw [new_] at finished
      cases finished
    · rw [kept other same] at finished found ⊢
      exact derived.followed other returned finished found
  · intro other forwarder found
    by_cases same : other = id
    · subst same
      rw [new_] at found
      cases found
    · rw [kept other same] at found ⊢
      have distinct := others forwarder
        (derived.forwarder_present refs found)
      rw [kept forwarder distinct]
      exact derived.forwarder other forwarder found
  · intro forwarder promise found
    by_cases same : forwarder = id
    · subst same
      rw [new_] at found
      exact absurd found (direct promise)
    · rw [kept forwarder same] at found
      obtain ⟨other, derived_, forwarder_⟩ :=
        derived.forwarded forwarder promise found
      have finished := (derived.forwarder other forwarder forwarder_).1
      have distinct := others other (present_of_finished finished)
      refine ⟨other, ?_⟩
      rw [kept other distinct]
      exact ⟨derived_, forwarder_⟩
  · intro other forwarder found waits
    by_cases same : other = id
    · subst same
      rw [new_] at found
      cases found
    · rw [kept other same] at found ⊢
      have distinct := others forwarder
        (derived.forwarder_present refs found)
      rw [kept forwarder distinct] at waits
      rw [results]
      exact derived.waiting other forwarder found waits
  · intro other forwarder found done
    by_cases same : other = id
    · subst same
      rw [new_] at found
      cases found
    · rw [kept other same] at found ⊢
      have distinct := others forwarder
        (derived.forwarder_present refs found)
      rw [kept forwarder distinct] at done ⊢
      rw [results, results]
      exact derived.result other forwarder found done

/-- A callback ends that completes no derived future. -/
theorem Derived.conclude (derived : system.Derived) {outcome : Outcome α}
    (present : (system.watchers id).status ≠ .absent)
    (unfinished : (system.watchers id).status ≠ .finished)
    (direct : ∀ promise, (system.watchers id).callback ≠ .forward promise) :
    (system.conclude id outcome).Derived := by
  have kept : ∀ other, other ≠ id →
      (system.conclude id outcome).watchers other =
        system.watchers other := by
    intro other distinct
    simp only [System.conclude, System.setWatcher, Function.update_apply,
      if_neg distinct]
  have new_ : (system.conclude id outcome).watchers id =
      { system.watchers id with
        status := .replied
        outcome := some outcome } := by
    simp [System.conclude, System.setWatcher]
  have unchained : ∀ other, (system.watchers other).forwarder ≠ some id := by
    intro other found
    exact direct _ (derived.forwarder other id found).2.2
  have leaf : (system.watchers id).forwarder = none := by
    cases found : (system.watchers id).forwarder with
    | none => rfl
    | some forwarder =>
        exact absurd (derived.forwarder id forwarder found).1 unfinished
  constructor
  · intro other present' unfinished'
    by_cases same : other = id
    · subst same
      rw [new_]
      exact derived.pending other present unfinished
    · rw [kept other same] at present' unfinished' ⊢
      exact derived.pending other present' unfinished'
  · intro other outcome finished found
    by_cases same : other = id
    · subst same
      rw [new_] at finished
      cases finished
    · rw [kept other same] at finished found ⊢
      exact derived.settled other outcome finished found
  · intro other returned finished found
    by_cases same : other = id
    · subst same
      rw [new_] at finished
      cases finished
    · rw [kept other same] at finished found ⊢
      exact derived.followed other returned finished found
  · intro other forwarder found
    by_cases same : other = id
    · subst same
      rw [new_] at found
      cases leaf.symm.trans found
    · rw [kept other same] at found ⊢
      have distinct : forwarder ≠ id := by
        rintro rfl
        exact unchained other found
      rw [kept forwarder distinct]
      exact derived.forwarder other forwarder found
  · intro forwarder promise found
    by_cases same : forwarder = id
    · subst same
      rw [new_] at found
      exact absurd found (direct promise)
    · rw [kept forwarder same] at found
      obtain ⟨other, derived_, forwarder_⟩ :=
        derived.forwarded forwarder promise found
      have distinct : other ≠ id := by
        rintro rfl
        cases leaf.symm.trans forwarder_
      refine ⟨other, ?_⟩
      rw [kept other distinct]
      exact ⟨derived_, forwarder_⟩
  · intro other forwarder found waits
    by_cases same : other = id
    · subst same
      rw [new_] at found
      cases leaf.symm.trans found
    · rw [kept other same] at found ⊢
      have distinct : forwarder ≠ id := by
        rintro rfl
        exact unchained other found
      rw [kept forwarder distinct] at waits
      exact derived.waiting other forwarder found waits
  · intro other forwarder found done
    by_cases same : other = id
    · subst same
      rw [new_] at found
      cases leaf.symm.trans found
    · rw [kept other same] at found ⊢
      have distinct : forwarder ≠ id := by
        rintro rfl
        exact unchained other found
      rw [kept forwarder distinct] at done ⊢
      exact derived.result other forwarder found done

theorem complete_result (system : System α) (id other : ℕ)
    (result : Result α) : ((system.complete id result).futures other).result =
      if other = id then some result else (system.futures other).result := by
  simp only [System.complete, System.setFuture, Function.update_apply]
  split <;> rfl

/-- The result of the future that a continuation has returned is forwarded. -/
theorem Derived.forward (derived : system.Derived) (refs : system.Refs)
    {promise : ℕ} {result : Result α}
    (status : (system.watchers id).status = .running)
    (callback : (system.watchers id).callback = .forward promise)
    (ready : (system.futures (system.watchers id).source).result =
      some result) :
    system.tryComplete promise result = (system.complete promise result, true) ∧
      ((system.complete promise result).conclude id
        (.returned .void)).Derived := by
  obtain ⟨origin, rfl, chained⟩ := derived.forwarded id promise callback
  have finished := (derived.forwarder origin id chained).1
  have open_ := derived.waiting origin id chained (by rw [status]; rfl)
  have distinct : origin ≠ id := by
    rintro rfl
    rw [status] at finished
    cases finished
  have only : ∀ other, (system.watchers other).status ≠ .absent →
      (system.watchers other).derived = (system.watchers origin).derived →
      other = origin := fun other present same =>
    refs.derived_injective present (present_of_finished finished) same
  refine ⟨by rw [tryComplete, open_], ?_⟩
  have kept : ∀ other, other ≠ id →
      ((system.complete (system.watchers origin).derived result).conclude id
        (.returned .void)).watchers other = system.watchers other := by
    intro other different
    simp only [System.conclude, System.setWatcher, Function.update_apply,
      if_neg different]
    rfl
  have new_ : ((system.complete (system.watchers origin).derived
      result).conclude id (.returned .void)).watchers id =
        { system.watchers id with
          status := .replied
          outcome := some (.returned .void) } := by
    simp only [System.conclude, System.setWatcher, Function.update_self]
    rfl
  have results : ∀ other, (((system.complete (system.watchers origin).derived
      result).conclude id (.returned .void)).futures other).result =
        if other = (system.watchers origin).derived then some result
        else (system.futures other).result := fun other =>
    system.complete_result _ other result
  have undone : ∀ other, (system.watchers other).status.invoked →
      (system.watchers other).source ≠ (system.watchers origin).derived := by
    intro other invoked same
    have done := refs.ready other invoked
    rw [same, open_] at done
    cases done
  constructor
  · intro other present unfinished
    have old : (system.watchers other).status ≠ .absent ∧
        (system.watchers other).status ≠ .finished := by
      by_cases same : other = id
      · rw [same, status]
        exact ⟨by simp, by simp⟩
      · rw [kept other same] at present unfinished
        exact ⟨present, unfinished⟩
    have derived_ : (((system.complete (system.watchers origin).derived
        result).conclude id (.returned .void)).watchers other).derived =
          (system.watchers other).derived := by
      by_cases same : other = id
      · rw [same, new_]
      · rw [kept other same]
    rw [results, derived_, if_neg]
    · exact derived.pending other old.1 old.2
    · intro same
      exact old.2 (only other old.1 same ▸ finished)
  · intro other outcome finished' found direct
    by_cases same : other = id
    · subst same
      rw [new_] at finished'
      cases finished'
    · rw [kept other same] at finished' found ⊢
      rw [results, if_neg]
      · exact derived.settled other outcome finished' found direct
      · intro equal
        obtain rfl := only other (present_of_finished finished') equal
        rw [(derived.forwarder other id chained).2.1] at found
        exact direct _ (Option.some.inj found).symm
  · intro other returned finished' found
    by_cases same : other = id
    · subst same
      rw [new_] at finished'
      cases finished'
    · rw [kept other same] at finished' found ⊢
      exact derived.followed other returned finished' found
  · intro other forwarder found
    by_cases same : other = id
    · subst same
      rw [new_] at found
      have wrong := (derived.forwarder other forwarder found).1
      rw [status] at wrong
      cases wrong
    · rw [kept other same] at found ⊢
      have before := derived.forwarder other forwarder found
      by_cases self : forwarder = id
      · subst self
        rw [new_]
        exact before
      · rw [kept forwarder self]
        exact before
  · intro forwarder promise found
    have old : (system.watchers forwarder).callback = .forward promise := by
      by_cases self : forwarder = id
      · subst self
        rwa [new_] at found
      · rwa [kept forwarder self] at found
    obtain ⟨other, derived_, forwarder_⟩ :=
      derived.forwarded forwarder promise old
    refine ⟨other, ?_⟩
    have elsewhere : other ≠ id := by
      rintro rfl
      have wrong := (derived.forwarder other forwarder forwarder_).1
      rw [status] at wrong
      cases wrong
    rw [kept other elsewhere]
    exact ⟨derived_, forwarder_⟩
  · intro other forwarder found waits
    by_cases same : other = id
    · subst same
      rw [new_] at found
      have wrong := (derived.forwarder other forwarder found).1
      rw [status] at wrong
      cases wrong
    · rw [kept other same] at found ⊢
      have self : forwarder ≠ id := by
        rintro rfl
        rw [new_] at waits
        cases waits
      rw [kept forwarder self] at waits
      rw [results, if_neg]
      · exact derived.waiting other forwarder found waits
      · intro equal
        have finished' := (derived.forwarder other forwarder found).1
        obtain rfl := only other (present_of_finished finished') equal
        exact self (Option.some.inj (found.symm.trans chained))
  · intro other forwarder found done
    by_cases same : other = id
    · subst same
      rw [new_] at found
      have wrong := (derived.forwarder other forwarder found).1
      rw [status] at wrong
      cases wrong
    · rw [kept other same] at found ⊢
      by_cases self : forwarder = id
      · subst self
        have callback' := (derived.forwarder other forwarder found).2.2
        rw [callback] at callback'
        have equal := Callback.forward.inj callback'
        rw [new_, results, results, if_pos equal.symm, if_neg]
        · exact ready.symm
        · exact undone forwarder (by rw [status]; rfl)
      · rw [kept forwarder self] at done ⊢
        have invoked := Status.invoked_of_concluded done
        rw [results, results, if_neg (undone forwarder invoked), if_neg]
        · exact derived.result other forwarder found done
        · intro equal
          have finished' := (derived.forwarder other forwarder found).1
          obtain rfl := only other (present_of_finished finished') equal
          exact self (Option.some.inj (found.symm.trans chained))

/-- The future of a continuation is completed with its outcome. -/
theorem Derived.reply (derived : system.Derived) (refs : system.Refs)
    {outcome : Outcome α} (status : (system.watchers id).status = .replied)
    (found : (system.watchers id).outcome = some outcome)
    (direct : ∀ returned, outcome ≠ .future (some returned)) :
    system.tryComplete (system.watchers id).derived outcome.result =
        (system.complete (system.watchers id).derived outcome.result, true) ∧
      ((system.complete (system.watchers id).derived
        outcome.result).setWatcher id
          { system.watchers id with status := .finished }).Derived := by
  have present : (system.watchers id).status ≠ .absent := by
    rw [status]
    simp
  have open_ := derived.pending id present (by rw [status]; simp)
  refine ⟨by rw [tryComplete, open_], ?_⟩
  have leaf : (system.watchers id).forwarder = none := by
    cases chained : (system.watchers id).forwarder with
    | none => rfl
    | some forwarder =>
        have finished := (derived.forwarder id forwarder chained).1
        rw [status] at finished
        cases finished
  have kept : ∀ other, other ≠ id →
      ((system.complete (system.watchers id).derived
        outcome.result).setWatcher id
          { system.watchers id with status := .finished }).watchers other =
        system.watchers other := by
    intro other different
    simp only [System.setWatcher, Function.update_apply, if_neg different]
    rfl
  have new_ : ((system.complete (system.watchers id).derived
      outcome.result).setWatcher id
        { system.watchers id with status := .finished }).watchers id =
          { system.watchers id with status := .finished } := by
    simp only [System.setWatcher, Function.update_self]
  have results : ∀ other, (((system.complete (system.watchers id).derived
      outcome.result).setWatcher id { system.watchers id with
        status := .finished }).futures other).result =
        if other = (system.watchers id).derived then some outcome.result
        else (system.futures other).result := fun other =>
    system.complete_result _ other outcome.result
  have elsewhere : ∀ other, (system.watchers other).status ≠ .absent →
      other ≠ id →
      (system.watchers other).derived ≠ (system.watchers id).derived :=
    fun other present' different same =>
      different (refs.derived_injective present' present same)
  constructor
  · intro other present' unfinished
    by_cases same : other = id
    · subst same
      rw [new_] at unfinished
      exact absurd rfl unfinished
    · rw [kept other same] at present' unfinished ⊢
      rw [results, if_neg (elsewhere other present' same)]
      exact derived.pending other present' unfinished
  · intro other outcome' finished found' direct'
    by_cases same : other = id
    · subst same
      rw [new_] at found' ⊢
      obtain rfl := Option.some.inj (found.symm.trans found')
      rw [results, if_pos rfl]
    · rw [kept other same] at finished found' ⊢
      rw [results, if_neg (elsewhere other (present_of_finished finished) same)]
      exact derived.settled other outcome' finished found' direct'
  · intro other returned finished found'
    by_cases same : other = id
    · subst same
      rw [new_] at found'
      exact absurd (Option.some.inj (found.symm.trans found'))
        (direct returned)
    · rw [kept other same] at finished found' ⊢
      exact derived.followed other returned finished found'
  · intro other forwarder chained
    by_cases same : other = id
    · subst same
      rw [new_] at chained
      cases leaf.symm.trans chained
    · rw [kept other same] at chained ⊢
      have before := derived.forwarder other forwarder chained
      by_cases self : forwarder = id
      · subst self
        rw [new_]
        exact before
      · rw [kept forwarder self]
        exact before
  · intro forwarder promise callback
    have old : (system.watchers forwarder).callback = .forward promise := by
      by_cases self : forwarder = id
      · subst self
        rwa [new_] at callback
      · rwa [kept forwarder self] at callback
    obtain ⟨other, derived_, forwarder_⟩ :=
      derived.forwarded forwarder promise old
    refine ⟨other, ?_⟩
    have different : other ≠ id := by
      rintro rfl
      cases leaf.symm.trans forwarder_
    rw [kept other different]
    exact ⟨derived_, forwarder_⟩
  · intro other forwarder chained waits
    by_cases same : other = id
    · subst same
      rw [new_] at chained
      cases leaf.symm.trans chained
    · rw [kept other same] at chained ⊢
      have finished := (derived.forwarder other forwarder chained).1
      have self : forwarder ≠ id := by
        rintro rfl
        rw [new_] at waits
        cases waits
      rw [kept forwarder self] at waits
      rw [results, if_neg (elsewhere other (present_of_finished finished) same)]
      exact derived.waiting other forwarder chained waits
  · intro other forwarder chained done
    by_cases same : other = id
    · subst same
      rw [new_] at chained
      cases leaf.symm.trans chained
    · rw [kept other same] at chained ⊢
      have finished := (derived.forwarder other forwarder chained).1
      have old : (system.watchers forwarder).status.concluded = true := by
        by_cases self : forwarder = id
        · rw [self, status]
          rfl
        · rwa [kept forwarder self] at done
      have source : (((system.complete (system.watchers id).derived
          outcome.result).setWatcher id { system.watchers id with
            status := .finished }).watchers forwarder).source =
              (system.watchers forwarder).source := by
        by_cases self : forwarder = id
        · rw [self, new_]
        · rw [kept forwarder self]
      have undone : (system.watchers forwarder).source ≠
          (system.watchers id).derived := by
        intro equal
        have ready := refs.ready forwarder (Status.invoked_of_concluded old)
        rw [equal, open_] at ready
        cases ready
      rw [results, results, source, if_neg undone,
        if_neg (elsewhere other (present_of_finished finished) same)]
      exact derived.result other forwarder chained old

/-- The continuation is finished, and another one forwards the result of the
future that it has returned. -/
theorem Derived.follow (derived : system.Derived) (refs : system.Refs)
    (lists : system.Lists) {returned forwarder made : ℕ}
    (status : (system.watchers id).status = .replied)
    (found : (system.watchers id).outcome = some (.future (some returned)))
    (fresh : (system.setWatcher id
      { system.watchers id with
        status := .finished
        forwarder := some forwarder }).Fresh returned forwarder made) :
    ((system.setWatcher id
      { system.watchers id with
        status := .finished
        forwarder := some forwarder }).registered returned forwarder made
          (.forward (system.watchers id).derived)).Derived := by
  have present : (system.watchers id).status ≠ .absent := by
    rw [status]
    simp
  have open_ := derived.pending id present (by rw [status]; simp)
  have distinct : forwarder ≠ id := by
    rintro rfl
    have absent := fresh.watcher
    simp only [System.setWatcher, Function.update_self] at absent
    cases absent
  have absent : (system.watchers forwarder).status = .absent := by
    have absent := fresh.watcher
    simpa only [System.setWatcher, Function.update_apply,
      if_neg distinct] using absent
  have empty : system.futures made = {} := lists.free made fresh.derived
  generalize after : (system.setWatcher id
    { system.watchers id with
      status := .finished
      forwarder := some forwarder }).registered returned forwarder made
        (.forward (system.watchers id).derived) = next
  have newer : next.watchers forwarder =
      { source := returned, callback := .forward (system.watchers id).derived,
        derived := made, status := .checking } := by
    rw [← after]
    simp only [System.registered, System.setWatcher, Function.update_self]
  have new_ : next.watchers id = { system.watchers id with
      status := .finished
      forwarder := some forwarder } := by
    rw [← after]
    simp only [System.registered, System.setWatcher, System.setFuture,
      Function.update_apply, if_neg distinct.symm, if_true]
  have kept : ∀ other, other ≠ id → other ≠ forwarder →
      next.watchers other = system.watchers other := by
    intro other different different'
    rw [← after]
    simp only [System.registered, System.setWatcher, System.setFuture,
      Function.update_apply, if_neg different, if_neg different']
  have results : ∀ future, (next.futures future).result =
      (system.futures future).result := by
    intro future
    rw [← after]
    simp only [System.registered, System.setWatcher, System.setFuture,
      Function.update_apply]
    split
    · next same =>
        rw [same, empty]
    · rfl
  have leaf : (system.watchers id).forwarder = none := by
    cases chained : (system.watchers id).forwarder with
    | none => rfl
    | some forwarder =>
        have finished := (derived.forwarder id forwarder chained).1
        rw [status] at finished
        cases finished
  have known : ∀ other, other ≠ forwarder →
      (next.watchers other).source = (system.watchers other).source ∧
      (next.watchers other).callback = (system.watchers other).callback ∧
      (next.watchers other).status.concluded =
        (system.watchers other).status.concluded := by
    intro other different
    by_cases same : other = id
    · rw [same, new_, status]
      exact ⟨rfl, rfl, rfl⟩
    · rw [kept other same different]
      exact ⟨rfl, rfl, rfl⟩
  have chained' : ∀ other target,
      (system.watchers other).forwarder = some target →
      target ≠ forwarder := by
    rintro other target chained rfl
    exact derived.forwarder_present refs chained absent
  have unborn : (system.watchers forwarder).forwarder = none := by
    rw [refs.absent forwarder absent]
  constructor
  · intro other present' unfinished
    by_cases same : other = id
    · rw [same, new_] at unfinished
      exact absurd rfl unfinished
    · by_cases same' : other = forwarder
      · rw [results, same', newer, empty]
      · rw [kept other same same'] at present' unfinished ⊢
        rw [results]
        exact derived.pending other present' unfinished
  · intro other outcome finished found' direct
    by_cases same : other = id
    · rw [same, new_] at found'
      exact absurd (Option.some.inj (found.symm.trans found')).symm
        (direct returned)
    · by_cases same' : other = forwarder
      · rw [same', newer] at finished
        cases finished
      · rw [kept other same same'] at finished found' ⊢
        rw [results]
        exact derived.settled other outcome finished found' direct
  · intro other returned' finished found'
    by_cases same : other = id
    · rw [same, new_]
      exact ⟨forwarder, rfl⟩
    · by_cases same' : other = forwarder
      · rw [same', newer] at finished
        cases finished
      · rw [kept other same same'] at finished found' ⊢
        exact derived.followed other returned' finished found'
  · intro other target chained
    by_cases same : other = id
    · subst same
      rw [new_] at chained ⊢
      obtain rfl := Option.some.inj chained
      rw [newer]
      exact ⟨rfl, found, rfl⟩
    · by_cases same' : other = forwarder
      · rw [same', newer] at chained
        cases chained
      · rw [kept other same same'] at chained ⊢
        obtain ⟨source, callback, _⟩ := known target (chained' other target
          chained)
        rw [source, callback]
        exact derived.forwarder other target chained
  · intro target promise callback
    by_cases same : target = forwarder
    · rw [same, newer] at callback
      refine ⟨id, ?_⟩
      rw [new_, same]
      exact ⟨Callback.forward.inj callback, rfl⟩
    · rw [(known target same).2.1] at callback
      obtain ⟨other, derived_, chained⟩ :=
        derived.forwarded target promise callback
      have different : other ≠ id := by
        rintro rfl
        cases leaf.symm.trans chained
      have different' : other ≠ forwarder := by
        rintro rfl
        cases unborn.symm.trans chained
      refine ⟨other, ?_⟩
      rw [kept other different different']
      exact ⟨derived_, chained⟩
  · intro other target chained waits
    rw [results]
    by_cases same : other = id
    · rw [same, new_]
      exact open_
    · by_cases same' : other = forwarder
      · rw [same', newer] at chained
        cases chained
      · rw [kept other same same'] at chained ⊢
        rw [(known target (chained' other target chained)).2.2] at waits
        exact derived.waiting other target chained waits
  · intro other target chained done
    rw [results, results]
    by_cases same : other = id
    · rw [same, new_] at chained
      obtain rfl := Option.some.inj chained
      rw [newer] at done
      cases done
    · by_cases same' : other = forwarder
      · rw [same', newer] at chained
        cases chained
      · rw [kept other same same'] at chained ⊢
        obtain ⟨source, _, concluded⟩ := known target (chained' other target
          chained)
        rw [concluded] at done
        rw [source]
        exact derived.result other target chained done

end System

end TarsCpp.Promise
