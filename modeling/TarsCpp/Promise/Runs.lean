import TarsCpp.Promise.Derived
import TarsCpp.Promise.Groups

/-!
# Runs of futures and promises

In every state that careful steps reach no future has been completed twice, no
continuation has been invoked twice or before its future was complete, and
derived futures have the results of their continuations or of their inputs.
When all calls have returned, nothing of this is still to happen.  A
continuation that is appended behind the swap is never invoked.
-/

namespace TarsCpp.Promise

open TransitionRun

variable {α : Type}

namespace System

structure Sound (system : System α) : Prop where
  lists : system.Lists
  refs : system.Refs
  derived : system.Derived
  groups : system.Groups

variable {system : System α} {id : ℕ}

theorem Lists.setGroup (lists : system.Lists) (group : Group) :
    (system.setGroup id group).Lists :=
  ⟨lists.free, lists.phase, lists.nodup, lists.waiting⟩

theorem Refs.setGroup (refs : system.Refs) (group : Group) :
    (system.setGroup id group).Refs :=
  ⟨refs.absent, refs.source, refs.owner, refs.derived, refs.callsNodup,
    refs.calls, refs.ready, refs.outcome⟩

theorem Derived.setGroup (derived : system.Derived) (group : Group) :
    (system.setGroup id group).Derived :=
  ⟨derived.pending, derived.settled, derived.followed, derived.forwarder,
    derived.forwarded, derived.waiting, derived.result⟩

/-- A future keeps its result. -/
theorem Derived.sameFuture (derived : system.Derived) {future : FutureImpl α}
    (result : future.result = (system.futures id).result) :
    (system.setFuture id future).Derived := by
  apply derived.keeps
  · exact fun _ => ⟨rfl, rfl, rfl, rfl, rfl⟩
  · exact fun _ => ⟨Iff.rfl, Iff.rfl, rfl⟩
  · intro other
    simp only [System.setFuture, Function.update_apply]
    split
    · next same => rw [result, same]
    · rfl

/-- A continuation goes on in front of its end. -/
theorem Derived.setStatus (derived : system.Derived) {status : Status}
    (before : (system.watchers id).status ≠ .absent ∧
      (system.watchers id).status.concluded = false)
    (after : status ≠ .absent ∧ status.concluded = false) :
    (system.setStatus id status).Derived := by
  have unfinished : ∀ {stage : Status}, stage.concluded = false →
      stage ≠ .finished := by
    rintro stage concluded rfl
    cases concluded
  apply derived.keeps
  · intro other
    simp only [System.setStatus, System.setWatcher, Function.update_apply]
    split
    · next same =>
        rw [same]
        exact ⟨rfl, rfl, rfl, rfl, rfl⟩
    · exact ⟨rfl, rfl, rfl, rfl, rfl⟩
  · intro other
    simp only [System.setStatus, System.setWatcher, Function.update_apply]
    split
    · next same =>
        rw [same, before.2, after.2]
        exact ⟨iff_of_false after.1 before.1,
          iff_of_false (unfinished after.2) (unfinished before.2), rfl⟩
    · exact ⟨Iff.rfl, Iff.rfl, rfl⟩
  · exact fun _ => rfl

theorem Refs.setStatus (refs : system.Refs) {status : Status}
    (before : (system.watchers id).status ≠ .absent ∧
      (system.watchers id).status.concluded = false)
    (after : status ≠ .absent ∧ status.concluded = false)
    (invoked : status.invoked = (system.watchers id).status.invoked) :
    (system.setStatus id status).Refs := by
  apply refs.setWatcher before.1 after.1
  · rfl
  · rfl
  · exact invoked
  · rw [refs.outcome, before.2, after.2]

theorem Refs.conclude (refs : system.Refs) (outcome : Outcome α)
    (invoked : (system.watchers id).status.invoked = true) :
    (system.conclude id outcome).Refs := by
  apply refs.setWatcher (present_of_invoked invoked)
  · simp
  · rfl
  · rfl
  · exact invoked.symm
  · exact iff_of_true rfl rfl

theorem Lists.invoke (lists : system.Lists)
    (status : (system.watchers id).status ≠ .listed) :
    (system.invoke id).Lists := by
  have set := @Lists.setWatcher _ _ id lists
    { system.watchers id with status := .running } rfl
    (iff_of_false (by simp) status)
  exact ⟨set.free, set.phase, set.nodup, set.waiting⟩

theorem Derived.invoke (derived : system.Derived)
    (before : (system.watchers id).status ≠ .absent ∧
      (system.watchers id).status.concluded = false) :
    (system.invoke id).Derived := by
  have set : (system.setStatus id .running).Derived :=
    derived.setStatus before ⟨by simp, rfl⟩
  exact ⟨set.pending, set.settled, set.followed, set.forwarder,
    set.forwarded, set.waiting, set.result⟩

theorem Groups.invoke (groups : system.Groups)
    (waits : (system.watchers id).status = .checking ∨
      (system.watchers id).status = .listed) :
    (system.invoke id).Groups := by
  have set : (system.setStatus id .running).Groups := by
    apply groups.setWatcher
    · rfl
    · rfl
    · intro _ _ _
      rcases waits with status | status
      · rw [status]
        exact ⟨rfl, rfl, rfl⟩
      · rw [status]
        exact ⟨rfl, rfl, rfl⟩
  apply set.keeps
  · rfl
  · exact fun _ _ => rfl
  · exact fun _ _ _ => rfl
  · exact fun _ done => done
  · exact fun _ _ _ _ => ⟨rfl, rfl, rfl, rfl, rfl⟩
  · exact fun _ _ _ found => found

theorem Sound.newFuture (sound : system.Sound) {future : FutureImpl α}
    (free : (system.futures id).owner = .free) (owner : future.owner ≠ .free)
    (unowned : ∀ watcher, future.owner ≠ .watcher watcher)
    (phase : future.Phase) (waiting : future.waiting = []) :
    (system.setFuture id future).Sound := by
  have empty := sound.lists.free id free
  constructor
  · apply sound.lists.setFuture owner phase
    rw [waiting, empty]
    rfl
  · exact sound.refs.newFuture free owner unowned
  · apply sound.derived.setFuture sound.refs
    · intro watcher
      rw [free]
      simp
    · rw [empty]
  · exact sound.groups.newFuture sound.lists free

theorem Sound.tryComplete (sound : system.Sound) (result : Result α)
    (user : (system.futures id).owner = .user) :
    (system.tryComplete id result).1.Sound := by
  rcases system.tryComplete_cases id result with ⟨open_, done⟩ | ⟨_, done⟩
  · rw [done]
    constructor
    · apply sound.lists.complete result _ open_
      rw [user]
      simp
    · exact sound.refs.setFuture rfl fun _ => rfl
    · apply sound.derived.setFuture sound.refs _ open_
      intro watcher
      rw [user]
      simp
    · apply sound.groups.complete
      intro group
      rw [user]
      simp
  · rw [done]
    exact sound

theorem Sound.registered (sound : system.Sound) {source derived : ℕ}
    (fresh : system.Fresh source id derived) :
    (system.registered source id derived .user).Sound :=
  ⟨sound.lists.registered fresh, sound.refs.registered fresh,
    sound.derived.registered sound.refs sound.lists fresh (by simp),
    sound.groups.registered sound.refs sound.lists fresh (by simp)⟩

theorem Sound.grouped (sound : system.Sound) {promise : ℕ} {inputs : List ℕ}
    (uncreated : (system.groups id).created = false)
    (free : (system.futures promise).owner = .free)
    (taken : ∀ input ∈ inputs, (system.futures input).owner ≠ .free)
    (small : inputs.length < 2 ^ 31) :
    (if inputs = [] then
        (system.grouped id promise inputs).complete promise (.ok (.futures []))
      else system.grouped id promise inputs).Sound := by
  have made : (system.setFuture promise { owner := .group id }).Sound :=
    sound.newFuture free (by simp) (by simp) (.open_ rfl rfl rfl rfl) rfl
  have groups := sound.groups.grouped sound.lists uncreated free taken small
  have lists : (system.grouped id promise inputs).Lists :=
    made.lists.setGroup _
  have refs : (system.grouped id promise inputs).Refs := made.refs.setGroup _
  have derived : (system.grouped id promise inputs).Derived :=
    made.derived.setGroup _
  have new_ : (system.grouped id promise inputs).futures promise =
      { owner := .group id } := by
    simp [System.grouped, System.setGroup, System.setFuture]
  by_cases none_ : inputs = []
  · rw [if_pos none_] at groups ⊢
    refine ⟨?_, ?_, ?_, groups⟩
    · apply lists.complete
      · rw [new_]
        simp
      · rw [new_]
    · exact refs.setFuture rfl fun _ => rfl
    · apply derived.setFuture refs
      · intro watcher
        rw [new_]
        simp
      · rw [new_]
  · rw [if_neg none_] at groups ⊢
    exact ⟨lists, refs, derived, groups⟩

theorem Sound.register (sound : system.Sound) {group source derived : ℕ}
    (found : (system.groups group).inputs[
      (system.groups group).members.length]? = some source)
    (fresh : system.Fresh source id derived) :
    ((system.registered source id derived
      (.onFuture group (system.groups group).members.length)).setGroup group
        { system.groups group with
          members := (system.groups group).members ++ [id] }).Sound := by
  have derived_ : (system.registered source id derived
      (.onFuture group (system.groups group).members.length)).Derived := by
    apply sound.derived.registered sound.refs sound.lists fresh
    simp
  exact ⟨(sound.lists.registered fresh).setGroup _,
    (sound.refs.registered fresh).setGroup _, derived_.setGroup _,
    sound.groups.register sound.refs sound.lists found fresh⟩

theorem Sound.invoke (sound : system.Sound)
    (status : (system.watchers id).status = .checking)
    (ready : (system.futures (system.watchers id).source).result.isSome) :
    (system.invoke id).Sound := by
  constructor
  · apply sound.lists.invoke
    rw [status]
    simp
  · exact sound.refs.invoke (.inl status) ready
  · apply sound.derived.invoke
    rw [status]
    exact ⟨by simp, rfl⟩
  · exact sound.groups.invoke (.inl status)

/-- A future keeps its owner and its result, and so does who waits for it. -/
theorem Sound.setFuture (sound : system.Sound) {future : FutureImpl α}
    (lists : (system.setFuture id future).Lists)
    (owner : future.owner = (system.futures id).owner)
    (result : future.result = (system.futures id).result) :
    (system.setFuture id future).Sound := by
  refine ⟨lists, ?_, ?_, ?_⟩
  · apply sound.refs.setFuture owner
    rw [result]
    exact fun done => done
  · exact sound.derived.sameFuture result
  · apply sound.groups.setFuture
    · exact fun _ => owner
    · exact fun _ _ => result
    · rw [result]
      exact fun done => done

theorem Sound.unready (sound : system.Sound)
    (status : (system.watchers id).status = .checking) :
    (system.setStatus id .appending).Sound := by
  have early : (system.watchers id).status ≠ .absent ∧
      (system.watchers id).status.concluded = false := by
    rw [status]
    exact ⟨by simp, rfl⟩
  constructor
  · apply sound.lists.setWatcher
    · rfl
    · rw [status]
      simp
  · apply sound.refs.setStatus early
    · exact ⟨by simp, rfl⟩
    · rw [status]
      rfl
  · exact sound.derived.setStatus early ⟨by simp, rfl⟩
  · apply sound.groups.setWatcher
    · rfl
    · rfl
    · intro _ _ _
      rw [status]
      exact ⟨rfl, rfl, rfl⟩

theorem Sound.append (sound : system.Sound)
    (status : (system.watchers id).status = .appending)
    (drained : (system.futures (system.watchers id).source).drained = false) :
    ((system.setFuture (system.watchers id).source
      { system.futures (system.watchers id).source with
        watchers := (system.futures (system.watchers id).source).watchers ++
          [id] }).setStatus id .listed).Sound := by
  have lists := sound.lists.append sound.refs status drained
  generalize (system.watchers id).source = source at *
  generalize grown : { system.futures source with
    watchers := (system.futures source).watchers ++ [id] } = future at *
  have owner : future.owner = (system.futures source).owner := by
    rw [← grown]
  have result : future.result = (system.futures source).result := by
    rw [← grown]
  have early : (system.watchers id).status ≠ .absent ∧
      (system.watchers id).status.concluded = false := by
    rw [status]
    exact ⟨by simp, rfl⟩
  have refs : (system.setFuture source future).Refs := by
    apply sound.refs.setFuture owner
    rw [result]
    exact fun done => done
  have derived : (system.setFuture source future).Derived :=
    sound.derived.sameFuture result
  have groups : (system.setFuture source future).Groups := by
    apply sound.groups.setFuture
    · exact fun _ => owner
    · exact fun _ _ => result
    · rw [result]
      exact fun done => done
  refine ⟨lists, ?_, derived.setStatus early ⟨by simp, rfl⟩, ?_⟩
  · apply refs.setStatus early
    · exact ⟨by simp, rfl⟩
    · change _ = (system.watchers id).status.invoked
      rw [status]
      rfl
  · apply groups.setWatcher
    · rfl
    · rfl
    · intro _ _ _
      change _ = (system.watchers id).status.hasStored ∧
        _ = (system.watchers id).status.counted ∧
        _ = (system.watchers id).status.isLast
      rw [status]
      exact ⟨rfl, rfl, rfl⟩

theorem Sound.next (sound : system.Sound) {thread watcher : ℕ}
    {rest : List ℕ} (found : (system.futures id).invoking[thread]? =
      some (some (watcher :: rest))) :
    ((system.setFuture id
      { system.futures id with
        invoking := (system.futures id).invoking.set thread (some rest) }
          ).invoke watcher).Sound := by
  have lists := sound.lists.next found
  obtain ⟨-, invoking⟩ := sound.lists.thread found
  obtain ⟨ready, -, -, empty⟩ := sound.lists.loop invoking
  obtain ⟨source, status⟩ := (sound.lists.waiting id watcher).mp
    (by simp [FutureImpl.waiting, invoking, empty])
  generalize less : { system.futures id with
    invoking := (system.futures id).invoking.set thread (some rest) } =
      future at *
  have owner : future.owner = (system.futures id).owner := by
    rw [← less]
  have result : future.result = (system.futures id).result := by
    rw [← less]
  have refs : (system.setFuture id future).Refs := by
    apply sound.refs.setFuture owner
    rw [result]
    exact fun done => done
  have derived : (system.setFuture id future).Derived :=
    sound.derived.sameFuture result
  have groups : (system.setFuture id future).Groups := by
    apply sound.groups.setFuture
    · exact fun _ => owner
    · exact fun _ _ => result
    · rw [result]
      exact fun done => done
  refine ⟨lists, ?_, ?_, groups.invoke (.inr status)⟩
  · apply refs.invoke (.inr status)
    change ((system.setFuture id future).futures
      (system.watchers watcher).source).result.isSome
    simp only [source, System.setFuture, Function.update_self, result]
    exact ready
  · apply derived.invoke
    change (system.watchers watcher).status ≠ .absent ∧
      (system.watchers watcher).status.concluded = false
    rw [status]
    exact ⟨by simp, rfl⟩

theorem Sound.conclude (sound : system.Sound) {outcome : Outcome α}
    (status : (system.watchers id).status = .running)
    (callback : (system.watchers id).callback = .user) :
    (system.conclude id outcome).Sound := by
  constructor
  · apply sound.lists.setWatcher
    · rfl
    · rw [status]
      simp
  · apply sound.refs.conclude
    rw [status]
    rfl
  · apply sound.derived.conclude
    · rw [status]
      simp
    · rw [status]
      simp
    · rw [callback]
      simp
  · apply sound.groups.setWatcher
    · rfl
    · rfl
    · intro group n found
      rw [callback] at found
      cases found

theorem Sound.forward (sound : system.Sound) {promise : ℕ}
    {result : Result α} (status : (system.watchers id).status = .running)
    (callback : (system.watchers id).callback = .forward promise)
    (ready : (system.futures (system.watchers id).source).result =
      some result) :
    (concludeCompletion id (system.tryComplete promise result)).Sound := by
  obtain ⟨completes, derived⟩ :=
    sound.derived.forward sound.refs status callback ready
  obtain ⟨origin, place, chained⟩ :=
    sound.derived.forwarded id promise callback
  have finished := (sound.derived.forwarder origin id chained).1
  have owner := sound.refs.owner origin (present_of_finished finished)
  rw [place] at owner
  have open_ := sound.derived.waiting origin id chained (by rw [status]; rfl)
  rw [place] at open_
  rw [completes]
  have lists : (system.complete promise result).Lists := by
    apply sound.lists.complete result _ open_
    rw [owner]
    simp
  have refs : (system.complete promise result).Refs :=
    sound.refs.setFuture rfl fun _ => rfl
  have groups : (system.complete promise result).Groups := by
    apply sound.groups.complete
    rw [owner]
    simp
  refine ⟨?_, ?_, derived, ?_⟩
  · apply lists.setWatcher
    · rfl
    · change _ ↔ (system.watchers id).status = .listed
      rw [status]
      simp
  · apply refs.conclude
    change (system.watchers id).status.invoked = true
    rw [status]
    rfl
  · apply groups.setWatcher
    · rfl
    · rfl
    · intro group n found
      change (system.watchers id).callback = _ at found
      rw [callback] at found
      cases found

section Callbacks

variable {group n : ℕ}

theorem Sound.store (sound : system.Sound)
    (status : (system.watchers id).status = .running)
    (callback : (system.watchers id).callback = .onFuture group n) :
    ((system.setGroup group
      { system.groups group with
        futures := (system.groups group).futures.set n
          (some (system.watchers id).source) }).setStatus id
            .stored).Sound := by
  refine ⟨?_, ?_, ?_, sound.groups.store status callback⟩
  · apply (sound.lists.setGroup _).setWatcher
    · rfl
    · change _ ↔ (system.watchers id).status = .listed
      rw [status]
      simp
  · apply (sound.refs.setGroup _).setStatus
    · change (system.watchers id).status ≠ .absent ∧
        (system.watchers id).status.concluded = false
      rw [status]
      exact ⟨by simp, rfl⟩
    · exact ⟨by simp, rfl⟩
    · change _ = (system.watchers id).status.invoked
      rw [status]
      rfl
  · apply (sound.derived.setGroup _).setStatus
    · change (system.watchers id).status ≠ .absent ∧
        (system.watchers id).status.concluded = false
      rw [status]
      exact ⟨by simp, rfl⟩
    · exact ⟨by simp, rfl⟩

theorem Sound.countMore (sound : system.Sound)
    (status : (system.watchers id).status = .stored)
    (callback : (system.watchers id).callback = .onFuture group n)
    (more : (system.groups group).waitCount > 1) :
    ((system.setGroup group
      { system.groups group with
        waitCount := toInt ((system.groups group).waitCount - 1) }).conclude
          id (.returned .void)).Sound := by
  refine ⟨?_, ?_, ?_, ?_⟩
  · apply (sound.lists.setGroup _).setWatcher
    · rfl
    · change _ ↔ (system.watchers id).status = .listed
      rw [status]
      simp
  · apply (sound.refs.setGroup _).conclude
    change (system.watchers id).status.invoked = true
    rw [status]
    rfl
  · apply (sound.derived.setGroup _).conclude
    · change (system.watchers id).status ≠ .absent
      rw [status]
      simp
    · change (system.watchers id).status ≠ .finished
      rw [status]
      simp
    · change ∀ promise, (system.watchers id).callback ≠ _
      rw [callback]
      simp
  · apply sound.groups.countDown status callback
    · rfl
    · exact iff_of_false (by simp [Status.isLast]) (not_not_intro more)

theorem Sound.countLast (sound : system.Sound)
    (status : (system.watchers id).status = .stored)
    (callback : (system.watchers id).callback = .onFuture group n)
    (last : ¬ (system.groups group).waitCount > 1) :
    ((system.setGroup group
      { system.groups group with
        waitCount := toInt ((system.groups group).waitCount - 1) }).setStatus
          id .last).Sound := by
  refine ⟨?_, ?_, ?_, ?_⟩
  · apply (sound.lists.setGroup _).setWatcher
    · rfl
    · change _ ↔ (system.watchers id).status = .listed
      rw [status]
      simp
  · apply (sound.refs.setGroup _).setStatus
    · change (system.watchers id).status ≠ .absent ∧
        (system.watchers id).status.concluded = false
      rw [status]
      exact ⟨by simp, rfl⟩
    · exact ⟨by simp, rfl⟩
    · change _ = (system.watchers id).status.invoked
      rw [status]
      rfl
  · apply (sound.derived.setGroup _).setStatus
    · change (system.watchers id).status ≠ .absent ∧
        (system.watchers id).status.concluded = false
      rw [status]
      exact ⟨by simp, rfl⟩
    · exact ⟨by simp, rfl⟩
  · apply sound.groups.countDown status callback
    · rfl
    · exact iff_of_true rfl last

theorem Sound.finish (sound : system.Sound)
    (status : (system.watchers id).status = .last)
    (callback : (system.watchers id).callback = .onFuture group n) :
    (concludeCompletion id
      (system.tryComplete (system.groups group).promise
        (.ok (.futures (system.groups group).futures)))).Sound := by
  have groups := sound.groups.finish sound.refs status callback
  obtain ⟨open_, -⟩ := sound.groups.filled sound.refs status callback
  have owner := (sound.groups.gathers group
    (sound.groups.known id group n callback).1).owner
  rw [System.tryComplete, open_]
  generalize (Except.ok (.futures (system.groups group).futures) :
    Result α) = result at *
  generalize (system.groups group).promise = promise at *
  have lists : (system.complete promise result).Lists := by
    apply sound.lists.complete result _ open_
    rw [owner]
    simp
  have refs : (system.complete promise result).Refs :=
    sound.refs.setFuture rfl fun _ => rfl
  have derived : (system.complete promise result).Derived := by
    apply sound.derived.setFuture sound.refs _ open_
    rw [owner]
    simp
  refine ⟨?_, ?_, ?_, groups⟩
  · apply lists.setWatcher
    · rfl
    · change _ ↔ (system.watchers id).status = .listed
      rw [status]
      simp
  · apply refs.conclude
    change (system.watchers id).status.invoked = true
    rw [status]
    rfl
  · apply derived.conclude
    · change (system.watchers id).status ≠ .absent
      rw [status]
      simp
    · change (system.watchers id).status ≠ .finished
      rw [status]
      simp
    · change ∀ promise, (system.watchers id).callback ≠ _
      rw [callback]
      simp

end Callbacks

theorem Sound.reply (sound : system.Sound) {outcome : Outcome α}
    (status : (system.watchers id).status = .replied)
    (found : (system.watchers id).outcome = some outcome)
    (direct : ∀ returned, outcome ≠ .future (some returned)) :
    ((system.tryComplete (system.watchers id).derived
      outcome.result).1.setWatcher id
        { system.watchers id with status := .finished }).Sound := by
  obtain ⟨completes, derived⟩ :=
    sound.derived.reply sound.refs status found direct
  have present : (system.watchers id).status ≠ .absent := by
    rw [status]
    simp
  have owner := sound.refs.owner id present
  have open_ := sound.derived.pending id present (by rw [status]; simp)
  rw [completes]
  have lists : (system.complete (system.watchers id).derived
      outcome.result).Lists := by
    apply sound.lists.complete _ _ open_
    rw [owner]
    simp
  have refs : (system.complete (system.watchers id).derived
      outcome.result).Refs := sound.refs.setFuture rfl fun _ => rfl
  have groups : (system.complete (system.watchers id).derived
      outcome.result).Groups := by
    apply sound.groups.complete
    rw [owner]
    simp
  refine ⟨?_, ?_, derived, ?_⟩
  · apply lists.setWatcher
    · rfl
    · change _ ↔ (system.watchers id).status = .listed
      rw [status]
      simp
  · apply refs.setWatcher
    · exact present
    · simp
    · rfl
    · rfl
    · change _ = (system.watchers id).status.invoked
      rw [status]
      rfl
    · rw [found]
      exact iff_of_true rfl rfl
  · apply groups.setWatcher
    · rfl
    · rfl
    · intro _ _ _
      change _ = (system.watchers id).status.hasStored ∧
        _ = (system.watchers id).status.counted ∧
        _ = (system.watchers id).status.isLast
      rw [status]
      exact ⟨rfl, rfl, rfl⟩

theorem Sound.follow (sound : system.Sound) {returned forwarder made : ℕ}
    (status : (system.watchers id).status = .replied)
    (found : (system.watchers id).outcome = some (.future (some returned)))
    (fresh : (system.setWatcher id
      { system.watchers id with
        status := .finished
        forwarder := some forwarder }).Fresh returned forwarder made) :
    ((system.setWatcher id
      { system.watchers id with
        status := .finished
        forwarder := some forwarder }).registered returned forwarder made
          (.forward (system.watchers id).derived)).Sound := by
  have lists : (system.setWatcher id
      { system.watchers id with
        status := .finished
        forwarder := some forwarder }).Lists := by
    apply sound.lists.setWatcher
    · rfl
    · rw [status]
      simp
  have refs : (system.setWatcher id
      { system.watchers id with
        status := .finished
        forwarder := some forwarder }).Refs := by
    apply sound.refs.setWatcher
    · rw [status]
      simp
    · simp
    · rfl
    · rfl
    · rw [status]
      rfl
    · rw [found]
      exact iff_of_true rfl rfl
  have groups : (system.setWatcher id
      { system.watchers id with
        status := .finished
        forwarder := some forwarder }).Groups := by
    apply sound.groups.setWatcher
    · rfl
    · rfl
    · intro _ _ _
      rw [status]
      exact ⟨rfl, rfl, rfl⟩
  exact ⟨lists.registered fresh, refs.registered fresh,
    sound.derived.follow sound.refs sound.lists status found fresh,
    groups.registered refs lists fresh (by simp)⟩

theorem Moves.sound {next : System α} (moves : system.Moves next)
    (sound : system.Sound) : next.Sound := by
  cases moves with
  | promise free =>
      exact sound.newFuture free (by simp) (by simp) (.open_ rfl rfl rfl rfl) rfl
  | prompt free =>
      exact sound.newFuture free (by simp) (by simp)
        (.passed rfl rfl rfl (Nat.zero_le 1) rfl) rfl
  | complete user => exact sound.tryComplete _ user
  | then_ fresh => exact sound.registered fresh
  | whenAll uncreated free taken small =>
      exact sound.grouped uncreated free taken small
  | register found fresh => exact sound.register found fresh
  | checkDone status ready => exact sound.invoke status ready
  | checkOpen status => exact sound.unready status
  | append status drained => exact sound.append status drained
  | swap found => exact sound.setFuture (sound.lists.swap found) rfl rfl
  | leave found => exact sound.setFuture (sound.lists.leave found) rfl rfl
  | next found => exact sound.next found
  | conclude status callback _ => exact sound.conclude status callback
  | forward status callback ready => exact sound.forward status callback ready
  | store status callback => exact sound.store status callback
  | countMore status callback more =>
      exact sound.countMore status callback more
  | countLast status callback last =>
      exact sound.countLast status callback last
  | finish status callback => exact sound.finish status callback
  | reply status found direct => exact sound.reply status found direct
  | follow status found fresh => exact sound.follow status found fresh

theorem start_sound : ({} : System α).Sound := by
  constructor
  · constructor
    · exact fun _ _ => rfl
    · exact fun _ => .open_ rfl rfl rfl rfl
    · exact fun _ => List.nodup_nil
    · intro id watcher
      simp [FutureImpl.waiting]
  · constructor
    · exact fun _ _ => rfl
    · exact fun _ present => absurd rfl present
    · exact fun _ present => absurd rfl present
    · simp
    · exact List.nodup_nil
    · simp [Status.invoked]
    · simp [Status.invoked]
    · simp [Status.concluded]
  · constructor
    · exact fun _ present => absurd rfl present
    · simp
    · simp
    · simp
    · simp
    · simp
    · simp
  · constructor
    · simp
    · exact fun _ _ => rfl
    · simp
    · simp

/-- The result is the one that an outcome gives. -/
def Gives (system : System α) : Outcome α → Result α → Prop
  | .returned value, result => result = .ok value
  | .thrown exception, result => result = .error (currentException exception)
  | .future (some returned), result =>
      (system.futures returned).result = some result
  | .future none, result => result = .error uninitialized

/-- No call has anything left to do. -/
structure Quiet (system : System α) : Prop where
  watchers : ∀ id, (system.watchers id).status = .absent ∨
    (system.watchers id).status = .listed ∨
    (system.watchers id).status = .finished
  futures : ∀ id, (system.futures id).invoking = []
  groups : ∀ id, (system.groups id).members.length =
    (system.groups id).inputs.length

/-- What has happened when nothing is left to do. -/
structure Complete (system : System α) : Prop where
  watcher : ∀ id, (system.watchers id).status ≠ .absent →
    (system.futures (system.watchers id).source).result.isSome →
    id ∈ system.calls ∧
      ∃ outcome, (system.watchers id).outcome = some outcome ∧
        ((∀ returned, outcome = .future (some returned) →
            (system.futures returned).result.isSome) →
          (system.futures (system.watchers id).derived).result.isSome)
  group : ∀ id, (system.groups id).created = true →
    (∀ input ∈ (system.groups id).inputs,
      (system.futures input).result.isSome) →
    (system.futures (system.groups id).promise).result.isSome

/-- What is expected of futures and promises. -/
structure Good (system : System α) : Prop where
  once : ∀ id, (system.futures id).succeeded ≤ 1
  callsNodup : system.calls.Nodup
  ready : ∀ id ∈ system.calls,
    (system.futures (system.watchers id).source).result.isSome
  derived : ∀ id result, (system.watchers id).status ≠ .absent →
    (system.futures (system.watchers id).derived).result = some result →
    ∃ outcome, (system.watchers id).outcome = some outcome ∧
      system.Gives outcome result
  whenAll : ∀ id result, (system.groups id).created = true →
    (system.futures (system.groups id).promise).result = some result →
    result = .ok (.futures ((system.groups id).inputs.map some)) ∧
      ∀ input ∈ (system.groups id).inputs,
        (system.futures input).result.isSome
  /-- A continuation in the list of a complete future is still to be invoked by
  a thread in `invokeWatchers`. -/
  listed : ∀ id, (system.watchers id).status = .listed →
    (system.futures (system.watchers id).source).result.isSome →
    (system.futures (system.watchers id).source).invoking ≠ []
  complete : system.Quiet → system.Complete

/-- When nobody is in `invokeWatchers` of a complete future, no continuation is
in its list. -/
theorem Lists.unlisted (lists : system.Lists)
    (ready : (system.futures (system.watchers id).source).result.isSome)
    (passed : (system.futures (system.watchers id).source).invoking = []) :
    (system.watchers id).status ≠ .listed := by
  intro listed
  have waits := (lists.waiting _ id).mpr ⟨rfl, listed⟩
  cases lists.phase (system.watchers id).source with
  | open_ none_ _ _ _ =>
      rw [none_] at ready
      cases ready
  | complete _ invoking _ _ =>
      rw [passed] at invoking
      cases invoking
  | looping _ invoking _ _ _ =>
      rw [passed] at invoking
      cases invoking
  | passed _ _ _ _ watchers =>
      simp [FutureImpl.waiting, watchers, passed] at waits

theorem Sound.finished (sound : system.Sound) (quiet : system.Quiet)
    (present : (system.watchers id).status ≠ .absent)
    (ready : (system.futures (system.watchers id).source).result.isSome) :
    (system.watchers id).status = .finished := by
  rcases quiet.watchers id with absent | listed | finished
  · exact absurd absent present
  · exact absurd listed (sound.lists.unlisted ready (quiet.futures _))
  · exact finished

theorem Sound.gives (sound : system.Sound) {result : Result α}
    (present : (system.watchers id).status ≠ .absent)
    (done : (system.futures (system.watchers id).derived).result =
      some result) :
    ∃ outcome, (system.watchers id).outcome = some outcome ∧
      system.Gives outcome result := by
  have finished : (system.watchers id).status = .finished := by
    by_contra unfinished
    rw [sound.derived.pending id present unfinished] at done
    cases done
  obtain ⟨outcome, found⟩ := Option.isSome_iff_exists.mp
    ((sound.refs.outcome id).mpr (by rw [finished]; rfl))
  refine ⟨outcome, found, ?_⟩
  have settled := sound.derived.settled id outcome finished found
  rw [done] at settled
  cases outcome with
  | returned value => exact Option.some.inj (settled (by simp))
  | thrown exception => exact Option.some.inj (settled (by simp))
  | future returned =>
      cases returned with
      | none => exact Option.some.inj (settled (by simp))
      | some returned =>
          obtain ⟨forwarder, chained⟩ :=
            sound.derived.followed id returned finished found
          have source := (sound.derived.forwarder id forwarder chained).2.1
          rw [found] at source
          obtain rfl := Option.some.inj (Outcome.future.inj
            (Option.some.inj source))
          cases concluded : (system.watchers forwarder).status.concluded with
          | true =>
              have same := sound.derived.result id forwarder chained concluded
              exact same.symm.trans done
          | false =>
              rw [sound.derived.waiting id forwarder chained concluded] at done
              cases done

theorem Sound.watcher_complete (sound : system.Sound) (quiet : system.Quiet)
    (present : (system.watchers id).status ≠ .absent)
    (ready : (system.futures (system.watchers id).source).result.isSome) :
    id ∈ system.calls ∧
      ∃ outcome, (system.watchers id).outcome = some outcome ∧
        ((∀ returned, outcome = .future (some returned) →
            (system.futures returned).result.isSome) →
          (system.futures (system.watchers id).derived).result.isSome) := by
  have finished := sound.finished quiet present ready
  obtain ⟨outcome, found⟩ := Option.isSome_iff_exists.mp
    ((sound.refs.outcome id).mpr (by rw [finished]; rfl))
  refine ⟨(sound.refs.calls id).mpr (by rw [finished]; rfl), outcome, found,
    ?_⟩
  intro returned_
  by_cases direct : ∀ returned, outcome ≠ .future (some returned)
  · rw [sound.derived.settled id outcome finished found direct]
    rfl
  · push Not at direct
    obtain ⟨returned, rfl⟩ := direct
    obtain ⟨forwarder, chained⟩ :=
      sound.derived.followed id returned finished found
    have source := (sound.derived.forwarder id forwarder chained).2.1
    rw [found] at source
    obtain rfl := Option.some.inj (Outcome.future.inj (Option.some.inj source))
    have ready' := returned_ _ rfl
    have finished' := sound.finished quiet
      (sound.derived.forwarder_present sound.refs chained) ready'
    rw [sound.derived.result id forwarder chained (by rw [finished']; rfl)]
    exact ready'

theorem Sound.group_complete (sound : system.Sound) (quiet : system.Quiet)
    (created : (system.groups id).created = true)
    (ready : ∀ input ∈ (system.groups id).inputs,
      (system.futures input).result.isSome) :
    (system.futures (system.groups id).promise).result.isSome := by
  have gathers := sound.groups.gathers id created
  have finished : ∀ watcher ∈ (system.groups id).members,
      (system.watchers watcher).status = .finished := by
    intro watcher among
    obtain ⟨n, found⟩ := List.mem_iff_getElem?.mp among
    obtain ⟨callback, source⟩ := gathers.member n watcher found
    apply sound.finished quiet
    · intro absent
      rw [sound.refs.absent watcher absent] at callback
      cases callback
    · exact ready _ (List.mem_of_getElem? source)
  have counted : system.count Status.counted id =
      (system.groups id).inputs.length := by
    rw [← quiet.groups id, System.count, List.countP_eq_length]
    intro watcher among
    rw [finished watcher among]
    rfl
  have last : system.count Status.isLast id = 0 := by
    rw [System.count, List.countP_eq_zero]
    intro watcher among
    rw [finished watcher among]
    simp [Status.isLast]
  have promised := gathers.promised
  rw [counted, last, if_pos rfl] at promised
  by_contra open_
  rw [if_neg open_] at promised
  cases promised

theorem Sound.good (sound : system.Sound) : system.Good := by
  constructor
  · intro id
    cases sound.lists.phase id with
    | open_ _ _ _ succeeded => omega
    | complete _ _ _ succeeded => exact succeeded.le
    | looping _ _ _ succeeded _ => exact succeeded
    | passed _ _ _ succeeded _ => exact succeeded
  · exact sound.refs.callsNodup
  · intro id called
    exact sound.refs.ready id ((sound.refs.calls id).mp called)
  · intro id result present done
    exact sound.gives present done
  · intro id result created done
    exact (sound.groups.gathers id created).result result done
  · intro id listed ready passed
    exact sound.lists.unlisted ready passed listed
  · intro quiet
    constructor
    · intro id present ready
      exact sound.watcher_complete quiet present ready
    · intro id created ready
      exact sound.group_complete quiet created ready

abbrev Step : System α → Event α → System α → Prop :=
  Applies System.step

abbrev Careful (system : System α) (event : Event α) : Prop :=
  system.careful event = true

/-- Careful runs keep what is expected. -/
theorem careful_futures_good {events : List (Event α)}
    (run : Run (Guarded Careful Step) {} events system) : system.Good := by
  have sound : system.Sound := by
    refine run.preserves ?_ start_sound
    intro state label next before taken
    exact (step_moves taken.1 taken.2).sound before
  exact sound.good

/-- A continuation returns a future whose result is forwarded, while a
`WhenAll` waits for both. -/
theorem careful_futures_good_chain : ∃ events system,
    Run (Guarded Careful Step) ({} : System ℕ) events system ∧ system.Good ∧
      system.calls = [0, 2, 1, 3] ∧
      (system.futures 1).result = some (.ok (.given 7)) ∧
      (system.futures 4).result = some (.ok (.futures [some 0, some 2])) := by
  let events : List (Event ℕ) := [.promise 0, .then_ 0 0 1, .check 0,
    .append 0, .promise 2, .whenAll 0 4 [0, 2], .complete 0 (.ok .void),
    .swap 0 0, .next 0 0, .return_ 0 (.future (some 2)), .reply 0 1 3,
    .check 1, .append 1, .register 0 2 5, .check 2, .store 2, .countDown 2,
    .reply 2 9 9, .register 0 3 6, .check 3, .append 3, .next 0 0,
    .complete 2 (.ok (.given 7)), .swap 2 0, .next 2 0, .forward 1,
    .reply 1 9 9, .next 2 0, .store 3, .countDown 3, .finish 3,
    .reply 3 9 9, .next 2 0]
  obtain ⟨system, replayed⟩ : ∃ system,
      replay careful System.step {} events = some system := ⟨_, rfl⟩
  have run := Run.of_replay replayed
  refine ⟨events, system, run, careful_futures_good run, ?_⟩
  cases replayed
  exact ⟨rfl, rfl, rfl⟩

/-- A continuation is appended behind the swap. -/
def late : List (Event ℕ) :=
  [.promise 0, .then_ 0 0 1, .check 0, .complete 0 (.ok .void), .swap 0 0,
    .next 0 0, .append 0]

theorem late_not_good : ¬ ∀ (events : List (Event ℕ)) (system : System ℕ),
    Run Step {} events system → system.Good := by
  intro good
  obtain ⟨system, replayed⟩ : ∃ system,
      replay (fun _ _ => true) System.step {} late = some system := ⟨_, rfl⟩
  have complete := (good late system
    (Run.of_replay replayed).unguarded).complete
  cases replayed
  have quiet := complete ⟨?_, ?_, fun _ => rfl⟩
  · have called := (quiet.watcher 0 (by decide) rfl).1
    cases called
  · intro id
    cases id with
    | zero => exact .inr (.inl rfl)
    | succ id => exact .inl rfl
  · intro id
    match id with
    | 0 => rfl
    | 1 => rfl
    | id + 2 => rfl

end System

end TarsCpp.Promise
