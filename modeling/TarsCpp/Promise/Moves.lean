import Mathlib.Tactic
import TarsCpp.Promise.Promise

/-!
# What a careful step does

A step is careful if no continuation is appended to a list that has already
been swapped out.  Every such step is one of a few moves.  A registration makes
a continuation and a future of fresh addresses; a continuation goes from one
status to the next; a future is completed, and its continuations are swapped
out and invoked.
-/

namespace TarsCpp.Promise

variable {α : Type}

namespace System

/-- `then` may be called, with addresses for what it makes. -/
structure Fresh (system : System α) (source id derived : ℕ) : Prop where
  source : (system.futures source).owner ≠ .free
  watcher : (system.watchers id).status = .absent
  derived : (system.futures derived).owner = .free

/-- What `then` makes. -/
def registered (system : System α) (source id derived : ℕ)
    (callback : Callback) : System α :=
  (system.setFuture derived { owner := .watcher id }).setWatcher id
    { source, callback, derived, status := .checking }

theorem register_eq_some {system next : System α} {source id derived : ℕ}
    {callback : Callback} :
    system.register source id derived callback = some next ↔
      system.Fresh source id derived ∧
        next = system.registered source id derived callback := by
  rw [register]
  constructor
  · intro done
    split at done
    · next fresh =>
        exact ⟨⟨fresh.1, fresh.2.1, fresh.2.2⟩, (Option.some.inj done).symm⟩
    · cases done
  · intro done
    rw [if_pos ⟨done.1.source, done.1.watcher, done.1.derived⟩, done.2]
    rfl

/-- What `WhenAll` makes. -/
def grouped (system : System α) (id promise : ℕ) (inputs : List ℕ) :
    System α :=
  (system.setFuture promise { owner := .group id }).setGroup id
    { created := true
      promise := promise
      inputs := inputs
      futures := List.replicate inputs.length none
      waitCount := toInt inputs.length }

/-- `push_back` in `appendWacther` comes before the swap in `invokeWatchers`,
and `WhenAll` has no more inputs than an `int` can count. -/
def careful (system : System α) : Event α → Bool
  | .append id => !(system.futures (system.watchers id).source).drained
  | .whenAll _ _ inputs => inputs.length < 2 ^ 31
  | _ => true

/-- The careful steps, with what they find and what they leave. -/
inductive Moves (system : System α) : System α → Prop
  | promise {id} : (system.futures id).owner = .free →
      Moves system (system.setFuture id { owner := .user })
  | prompt {id result} : (system.futures id).owner = .free →
      Moves system (system.setFuture id
        { owner := .prompt, result := some result, drained := true })
  | complete {id result} : (system.futures id).owner = .user →
      Moves system (system.tryComplete id result).1
  | then_ {source id derived} : system.Fresh source id derived →
      Moves system (system.registered source id derived .user)
  | whenAll {id promise inputs} : (system.groups id).created = false →
      (system.futures promise).owner = .free →
      (∀ input ∈ inputs, (system.futures input).owner ≠ .free) →
      inputs.length < 2 ^ 31 →
      Moves system (if inputs = [] then
          (system.grouped id promise inputs).complete promise
            (.ok (.futures []))
        else system.grouped id promise inputs)
  | register {group source id derived} :
      (system.groups group).inputs[(system.groups group).members.length]? =
        some source →
      system.Fresh source id derived →
      Moves system ((system.registered source id derived
        (.onFuture group (system.groups group).members.length)).setGroup group
          { system.groups group with
            members := (system.groups group).members ++ [id] })
  | checkDone {id} : (system.watchers id).status = .checking →
      (system.futures (system.watchers id).source).result.isSome →
      Moves system (system.invoke id)
  | checkOpen {id} : (system.watchers id).status = .checking →
      Moves system (system.setStatus id .appending)
  | append {id} : (system.watchers id).status = .appending →
      (system.futures (system.watchers id).source).drained = false →
      Moves system ((system.setFuture (system.watchers id).source
        { system.futures (system.watchers id).source with
          watchers := (system.futures (system.watchers id).source).watchers ++
            [id] }).setStatus id .listed)
  | swap {id thread} : (system.futures id).invoking[thread]? = some none →
      Moves system (system.setFuture id
        { system.futures id with
          watchers := []
          invoking := (system.futures id).invoking.set thread
            (some (system.futures id).watchers)
          drained := true })
  | leave {id thread} : (system.futures id).invoking[thread]? = some (some []) →
      Moves system (system.setFuture id
        { system.futures id with
          invoking := (system.futures id).invoking.eraseIdx thread })
  | next {id thread watcher rest} :
      (system.futures id).invoking[thread]? = some (some (watcher :: rest)) →
      Moves system ((system.setFuture id
        { system.futures id with
          invoking := (system.futures id).invoking.set thread (some rest) }
            ).invoke watcher)
  | conclude {id outcome} : (system.watchers id).status = .running →
      (system.watchers id).callback = .user → system.Returnable outcome →
      Moves system (system.conclude id outcome)
  | forward {id promise result} : (system.watchers id).status = .running →
      (system.watchers id).callback = .forward promise →
      (system.futures (system.watchers id).source).result = some result →
      Moves system (concludeCompletion id (system.tryComplete promise result))
  | store {id group n} : (system.watchers id).status = .running →
      (system.watchers id).callback = .onFuture group n →
      Moves system ((system.setGroup group
        { system.groups group with
          futures := (system.groups group).futures.set n
            (some (system.watchers id).source) }).setStatus id .stored)
  | countMore {id group n} : (system.watchers id).status = .stored →
      (system.watchers id).callback = .onFuture group n →
      (system.groups group).waitCount > 1 →
      Moves system ((system.setGroup group
        { system.groups group with
          waitCount := toInt ((system.groups group).waitCount - 1) }).conclude
            id (.returned .void))
  | countLast {id group n} : (system.watchers id).status = .stored →
      (system.watchers id).callback = .onFuture group n →
      ¬ (system.groups group).waitCount > 1 →
      Moves system ((system.setGroup group
        { system.groups group with
          waitCount := toInt ((system.groups group).waitCount - 1) }).setStatus
            id .last)
  | finish {id group n} : (system.watchers id).status = .last →
      (system.watchers id).callback = .onFuture group n →
      Moves system (concludeCompletion id
        (system.tryComplete (system.groups group).promise
          (.ok (.futures (system.groups group).futures))))
  | reply {id outcome} : (system.watchers id).status = .replied →
      (system.watchers id).outcome = some outcome →
      (∀ returned, outcome ≠ .future (some returned)) →
      Moves system ((system.tryComplete (system.watchers id).derived
        outcome.result).1.setWatcher id
          { system.watchers id with status := .finished })
  | follow {id returned forwarder derived} :
      (system.watchers id).status = .replied →
      (system.watchers id).outcome = some (.future (some returned)) →
      (system.setWatcher id
        { system.watchers id with
          status := .finished
          forwarder := some forwarder }).Fresh returned forwarder derived →
      Moves system ((system.setWatcher id
        { system.watchers id with
          status := .finished
          forwarder := some forwarder }).registered returned forwarder derived
            (.forward (system.watchers id).derived))

theorem step_moves {system next : System α} {event : Event α}
    (guard : system.careful event = true)
    (done : system.step event = some next) : Moves system next := by
  cases event with
  | promise id =>
      simp only [step] at done
      split at done
      · next free =>
          cases done
          exact .promise free
      · cases done
  | prompt id result =>
      simp only [step] at done
      split at done
      · next free =>
          cases done
          exact .prompt free
      · cases done
  | complete id result =>
      simp only [step] at done
      split at done
      · next user =>
          cases done
          exact .complete user
      · cases done
  | then_ source id derived =>
      obtain ⟨fresh, rfl⟩ := register_eq_some.mp done
      exact .then_ fresh
  | whenAll id promise inputs =>
      simp only [step] at done
      split at done
      · next free =>
          cases done
          exact .whenAll free.1 free.2.1 free.2.2 (of_decide_eq_true guard)
      · cases done
  | register group id derived =>
      simp only [step] at done
      split at done
      · next source found =>
          obtain ⟨made, made_, rfl⟩ := Option.map_eq_some_iff.mp done
          obtain ⟨fresh, rfl⟩ := register_eq_some.mp made_
          exact .register found fresh
      · cases done
  | check id =>
      simp only [step] at done
      split at done
      · next checking =>
          cases done
          split
          · next ready => exact .checkDone checking ready
          · exact .checkOpen checking
      · cases done
  | append id =>
      simp only [step] at done
      split at done
      · next appending =>
          cases done
          exact .append appending (by simpa [careful] using guard)
      · cases done
  | swap id thread =>
      simp only [step] at done
      split at done
      · next found =>
          cases done
          exact .swap found
      · cases done
  | next id thread =>
      simp only [step] at done
      split at done
      · next found =>
          cases done
          exact .leave found
      · next found =>
          cases done
          exact .next found
      · cases done
  | return_ id outcome =>
      simp only [step] at done
      split at done
      · next running =>
          cases done
          exact .conclude running.1 running.2.1 running.2.2
      · cases done
  | forward id =>
      simp only [step] at done
      split at done
      · next status callback result =>
          cases done
          exact .forward status callback result
      · cases done
  | store id =>
      simp only [step] at done
      split at done
      · next status callback =>
          cases done
          exact .store status callback
      · cases done
  | countDown id =>
      simp only [step] at done
      split at done
      · next status callback =>
          cases done
          split
          · next more => exact .countMore status callback more
          · next last => exact .countLast status callback last
      · cases done
  | finish id =>
      simp only [step] at done
      split at done
      · next status callback =>
          cases done
          exact .finish status callback
      · cases done
  | reply id forwarder derived =>
      simp only [step] at done
      split at done
      · next status outcome =>
          obtain ⟨fresh, rfl⟩ := register_eq_some.mp done
          exact .follow status outcome fresh
      · next outcome other status found =>
          cases done
          exact .reply status found other
      · cases done

end System

end TarsCpp.Promise
