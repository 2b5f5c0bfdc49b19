import TarsCpp.Promise.Moves

/-!
# The lists of continuations

A continuation that is listed waits in the list of its future or in the loop of
the one thread that has completed the future, and it is invoked when it leaves
that loop.  No continuation is invoked twice, and none before its future is
complete.
-/

namespace TarsCpp.Promise

variable {α : Type}

/-- The continuations that have been appended and not yet invoked. -/
def FutureImpl.waiting (future : FutureImpl α) : List ℕ :=
  future.watchers ++ future.invoking.flatMap fun rest => rest.getD []

/-- How far the completion of a future is. -/
inductive FutureImpl.Phase (future : FutureImpl α) : Prop
  | open_ : future.result = none → future.invoking = [] →
      future.drained = false → future.succeeded = 0 → Phase future
  | complete : future.result.isSome → future.invoking = [none] →
      future.drained = false → future.succeeded = 1 → Phase future
  | looping {rest} : future.result.isSome → future.invoking = [some rest] →
      future.drained = true → future.succeeded ≤ 1 → future.watchers = [] →
      Phase future
  | passed : future.result.isSome → future.invoking = [] →
      future.drained = true → future.succeeded ≤ 1 → future.watchers = [] →
      Phase future

def Status.invoked : Status → Bool
  | .running | .stored | .last | .replied | .finished => true
  | .absent | .checking | .appending | .listed => false

/-- The callback has ended. -/
def Status.concluded : Status → Bool
  | .replied | .finished => true
  | .absent | .checking | .appending | .listed | .running | .stored | .last =>
      false

theorem Status.invoked_of_concluded {status : Status}
    (concluded : status.concluded = true) : status.invoked = true := by
  cases status with
  | replied => rfl
  | finished => rfl
  | absent => cases concluded
  | checking => cases concluded
  | appending => cases concluded
  | listed => cases concluded
  | running => cases concluded
  | stored => cases concluded
  | last => cases concluded

namespace System

/-- The lists of the futures. -/
structure Lists (system : System α) : Prop where
  free : ∀ id, (system.futures id).owner = .free → system.futures id = {}
  phase : ∀ id, (system.futures id).Phase
  nodup : ∀ id, (system.futures id).waiting.Nodup
  waiting : ∀ id watcher, watcher ∈ (system.futures id).waiting ↔
    (system.watchers watcher).source = id ∧
      (system.watchers watcher).status = .listed

/-- What continuations and futures know of each other. -/
structure Refs (system : System α) : Prop where
  absent : ∀ id, (system.watchers id).status = .absent →
    system.watchers id = {}
  source : ∀ id, (system.watchers id).status ≠ .absent →
    (system.futures (system.watchers id).source).owner ≠ .free
  owner : ∀ id, (system.watchers id).status ≠ .absent →
    (system.futures (system.watchers id).derived).owner = .watcher id
  derived : ∀ future id, (system.futures future).owner = .watcher id →
    (system.watchers id).status ≠ .absent ∧
      (system.watchers id).derived = future
  callsNodup : system.calls.Nodup
  calls : ∀ id, id ∈ system.calls ↔ (system.watchers id).status.invoked
  ready : ∀ id, (system.watchers id).status.invoked →
    (system.futures (system.watchers id).source).result.isSome
  outcome : ∀ id, (system.watchers id).outcome.isSome ↔
    (system.watchers id).status.concluded

variable {system : System α} {id : ℕ}

theorem tryComplete_cases (system : System α) (id : ℕ) (result : Result α) :
    ((system.futures id).result = none ∧
      system.tryComplete id result = (system.complete id result, true)) ∨
    ((system.futures id).result.isSome ∧
      system.tryComplete id result = (system, false)) := by
  cases found : (system.futures id).result with
  | none => exact .inl ⟨rfl, by rw [tryComplete, found]⟩
  | some old => exact .inr ⟨rfl, by rw [tryComplete, found]⟩

theorem Lists.setWatcher (lists : system.Lists) {watcher : Watcher α}
    (source : watcher.source = (system.watchers id).source)
    (listed : watcher.status = .listed ↔
      (system.watchers id).status = .listed) :
    (system.setWatcher id watcher).Lists := by
  refine ⟨lists.free, lists.phase, lists.nodup, ?_⟩
  intro future other
  have waiting := lists.waiting future other
  simp only [System.setWatcher, Function.update_apply]
  split
  · next same =>
      rw [source, listed, ← same]
      exact waiting
  · exact waiting

/-- A future changes, and not who waits for it. -/
theorem Lists.setFuture (lists : system.Lists) {future : FutureImpl α}
    (owner : future.owner ≠ .free) (phase : future.Phase)
    (waiting : future.waiting = (system.futures id).waiting) :
    (system.setFuture id future).Lists := by
  constructor
  · intro other
    simp only [System.setFuture, Function.update_apply]
    split
    · exact fun free => absurd free owner
    · exact lists.free other
  · intro other
    simp only [System.setFuture, Function.update_apply]
    split
    · exact phase
    · exact lists.phase other
  · intro other
    simp only [System.setFuture, Function.update_apply]
    split
    · next same =>
        rw [waiting, ← same]
        exact lists.nodup other
    · exact lists.nodup other
  · intro other watcher
    have before := lists.waiting other watcher
    simp only [System.setFuture, Function.update_apply]
    split
    · next same =>
        rw [waiting, ← same]
        exact before
    · exact before

theorem Lists.complete (lists : system.Lists) (result : Result α)
    (owner : (system.futures id).owner ≠ .free)
    (none_ : (system.futures id).result = none) :
    (system.complete id result).Lists := by
  have waiting : (system.futures id).invoking = [] ∧
      (system.futures id).drained = false ∧
      (system.futures id).succeeded = 0 := by
    cases lists.phase id with
    | open_ _ invoking drained succeeded => exact ⟨invoking, drained, succeeded⟩
    | complete result _ _ _ => simp [none_] at result
    | looping result _ _ _ _ => simp [none_] at result
    | passed result _ _ _ _ => simp [none_] at result
  obtain ⟨invoking, drained, succeeded⟩ := waiting
  apply lists.setFuture
  · exact owner
  · exact .complete rfl (by rw [invoking]; rfl) drained (by rw [succeeded])
  · simp [FutureImpl.waiting, invoking]

theorem Lists.registered (lists : system.Lists) {source derived : ℕ}
    {callback : Callback} (fresh : system.Fresh source id derived) :
    (system.registered source id derived callback).Lists := by
  have empty := lists.free derived fresh.derived
  have made : (system.setFuture derived { owner := .watcher id }).Lists := by
    apply lists.setFuture
    · simp
    · exact .open_ rfl rfl rfl rfl
    · rw [empty]
      rfl
  refine ⟨made.free, made.phase, made.nodup, ?_⟩
  intro future watcher
  have waiting := made.waiting future watcher
  simp only [System.registered, System.setWatcher, Function.update_apply]
  split
  · next same =>
      subst same
      have absent : (system.watchers watcher).status = .absent := fresh.watcher
      change watcher ∈ (Function.update system.futures derived
        { owner := .watcher watcher } future).waiting ↔ _
      change watcher ∈ (Function.update system.futures derived
        { owner := .watcher watcher } future).waiting ↔ _ at waiting
      rw [waiting]
      simp [absent, System.setFuture]
  · exact waiting

/-- The one thread in `invokeWatchers`. -/
theorem Lists.thread (lists : system.Lists) {thread : ℕ}
    {rest : Option (List ℕ)}
    (found : (system.futures id).invoking[thread]? = some rest) :
    thread = 0 ∧ (system.futures id).invoking = [rest] := by
  have single : ∀ {only : Option (List ℕ)},
      (system.futures id).invoking = [only] →
      thread = 0 ∧ (system.futures id).invoking = [rest] := by
    intro only same
    rw [same] at found ⊢
    cases thread with
    | zero =>
        cases found
        exact ⟨rfl, rfl⟩
    | succ thread => cases found
  cases lists.phase id with
  | open_ _ invoking _ _ =>
      rw [invoking] at found
      cases found
  | complete _ invoking _ _ => exact single invoking
  | looping _ invoking _ _ _ => exact single invoking
  | passed _ invoking _ _ _ =>
      rw [invoking] at found
      cases found

theorem Lists.swap (lists : system.Lists) {thread : ℕ}
    (found : (system.futures id).invoking[thread]? = some none) :
    (system.setFuture id
      { system.futures id with
        watchers := []
        invoking := (system.futures id).invoking.set thread
          (some (system.futures id).watchers)
        drained := true }).Lists := by
  obtain ⟨rfl, invoking⟩ := lists.thread found
  have result : (system.futures id).result.isSome ∧
      (system.futures id).succeeded = 1 := by
    cases lists.phase id with
    | open_ _ none_ _ _ => simp [invoking] at none_
    | complete result _ _ succeeded => exact ⟨result, succeeded⟩
    | looping _ looping _ _ _ => simp [invoking] at looping
    | passed _ none_ _ _ _ => simp [invoking] at none_
  apply lists.setFuture
  · intro free
    rw [lists.free id free] at result
    cases result.1
  · have invoking' : (system.futures id).invoking.set 0
        (some (system.futures id).watchers) =
          [some (system.futures id).watchers] := by
      rw [invoking]
      rfl
    exact .looping result.1 invoking' rfl result.2.le rfl
  · simp [FutureImpl.waiting, invoking]

theorem Lists.loop (lists : system.Lists) {rest : List ℕ}
    (invoking : (system.futures id).invoking = [some rest]) :
    (system.futures id).result.isSome ∧ (system.futures id).drained = true ∧
      (system.futures id).succeeded ≤ 1 ∧
      (system.futures id).watchers = [] := by
  cases lists.phase id with
  | open_ _ none_ _ _ => simp [invoking] at none_
  | complete _ complete _ _ => simp [invoking] at complete
  | looping result _ drained succeeded watchers =>
      exact ⟨result, drained, succeeded, watchers⟩
  | passed _ none_ _ _ _ => simp [invoking] at none_

theorem Lists.leave (lists : system.Lists) {thread : ℕ}
    (found : (system.futures id).invoking[thread]? = some (some [])) :
    (system.setFuture id
      { system.futures id with
        invoking := (system.futures id).invoking.eraseIdx thread }).Lists := by
  obtain ⟨rfl, invoking⟩ := lists.thread found
  obtain ⟨result, drained, succeeded, watchers⟩ := lists.loop invoking
  apply lists.setFuture
  · intro free
    rw [lists.free id free] at result
    cases result
  · refine .passed result ?_ drained succeeded watchers
    rw [invoking]
    rfl
  · simp [FutureImpl.waiting, invoking]

/-- A watcher leaves the loop. -/
theorem Lists.next (lists : system.Lists) {thread watcher : ℕ}
    {rest : List ℕ} (found : (system.futures id).invoking[thread]? =
      some (some (watcher :: rest))) :
    ((system.setFuture id
      { system.futures id with
        invoking := (system.futures id).invoking.set thread (some rest) }
          ).invoke watcher).Lists := by
  obtain ⟨rfl, invoking⟩ := lists.thread found
  obtain ⟨result, drained, succeeded, watchers⟩ := lists.loop invoking
  have waiting : (system.futures id).waiting = watcher :: rest := by
    simp [FutureImpl.waiting, invoking, watchers]
  have nodup := lists.nodup id
  rw [waiting] at nodup
  obtain ⟨source, _⟩ := (lists.waiting id watcher).mp
    (by rw [waiting]; exact List.mem_cons_self)
  have remaining : { system.futures id with
      invoking := (system.futures id).invoking.set 0 (some rest)
        }.waiting = rest := by
    simp [FutureImpl.waiting, invoking, watchers]
  constructor
  · intro other
    simp only [invoke, System.setWatcher, System.setFuture,
      Function.update_apply]
    split
    · next same =>
        intro free
        rw [lists.free id free] at result
        cases result
    · exact lists.free other
  · intro other
    simp only [invoke, System.setWatcher, System.setFuture,
      Function.update_apply]
    split
    · have invoking' : (system.futures id).invoking.set 0 (some rest) =
          [some rest] := by
        rw [invoking]
        rfl
      exact .looping result invoking' drained succeeded watchers
    · exact lists.phase other
  · intro other
    simp only [invoke, System.setWatcher, System.setFuture,
      Function.update_apply]
    split
    · rw [remaining]
      exact (List.nodup_cons.mp nodup).2
    · exact lists.nodup other
  · intro future other
    have before := lists.waiting future other
    have fresh := (List.nodup_cons.mp nodup).1
    simp only [invoke, System.setWatcher, System.setFuture,
      Function.update_apply]
    by_cases same : other = watcher
    · subst same
      by_cases here : future = id
      · subst here
        simp [remaining, fresh]
      · simp only [if_neg here, if_true, reduceCtorEq, and_false, iff_false]
        intro member
        exact here ((before.mp member).1.symm.trans source)
    · by_cases here : future = id
      · subst here
        rw [waiting, List.mem_cons] at before
        simp only [if_true, remaining, if_neg same]
        simpa [same] using before
      · simpa only [if_neg here, if_neg same] using before

theorem Lists.append (lists : system.Lists) (refs : system.Refs)
    (status : (system.watchers id).status = .appending)
    (drained : (system.futures (system.watchers id).source).drained = false) :
    ((system.setFuture (system.watchers id).source
      { system.futures (system.watchers id).source with
        watchers := (system.futures (system.watchers id).source).watchers ++
          [id] }).setStatus id .listed).Lists := by
  have owner := refs.source id (by rw [status]; simp)
  have absent : id ∉ (system.futures (system.watchers id).source).waiting := by
    intro member
    have listed := ((lists.waiting _ id).mp member).2
    rw [status] at listed
    cases listed
  have nodup := lists.nodup (system.watchers id).source
  have before := lists.waiting (system.watchers id).source
  have phase := lists.phase (system.watchers id).source
  generalize same : (system.watchers id).source = source at *
  have quiet : (system.futures source).invoking.flatMap
      (fun rest => rest.getD []) = [] := by
    cases phase with
    | open_ _ invoking _ _ => rw [invoking]; rfl
    | complete _ invoking _ _ => rw [invoking]; rfl
    | looping _ _ drained' _ _ => rw [drained] at drained'; cases drained'
    | passed _ _ drained' _ _ => rw [drained] at drained'; cases drained'
  have waiting : (system.futures source).waiting =
      (system.futures source).watchers := by
    rw [FutureImpl.waiting, quiet, List.append_nil]
  have grown : { system.futures source with
      watchers := (system.futures source).watchers ++ [id] }.waiting =
        (system.futures source).waiting ++ [id] := by
    rw [waiting, FutureImpl.waiting, quiet, List.append_nil]
  constructor
  · intro other
    simp only [setStatus, System.setWatcher, System.setFuture,
      Function.update_apply]
    split
    · exact fun free => absurd free owner
    · exact lists.free other
  · intro other
    simp only [setStatus, System.setWatcher, System.setFuture,
      Function.update_apply]
    split
    · cases phase with
      | open_ result invoking _ succeeded =>
          exact .open_ result invoking drained succeeded
      | complete result invoking _ succeeded =>
          exact .complete result invoking drained succeeded
      | looping _ _ drained' _ _ => rw [drained] at drained'; cases drained'
      | passed _ _ drained' _ _ => rw [drained] at drained'; cases drained'
    · exact lists.phase other
  · intro other
    simp only [setStatus, System.setWatcher, System.setFuture,
      Function.update_apply]
    split
    · rw [grown]
      exact List.nodup_append.mpr ⟨nodup, List.nodup_singleton id,
        fun first member second member' equal =>
          absent (List.mem_singleton.mp member' ▸ equal ▸ member)⟩
    · exact lists.nodup other
  · intro future other
    have old := lists.waiting future other
    simp only [setStatus, System.setWatcher, System.setFuture,
      Function.update_apply]
    by_cases here : future = source
    · subst here
      simp only [if_true, grown, List.mem_append, List.mem_singleton]
      by_cases self : other = id
      · subst self
        simp [same]
      · simp only [self, or_false]
        exact old
    · simp only [if_neg here]
      by_cases self : other = id
      · subst self
        simp only [if_true, same]
        rw [old, status]
        simp [Ne.symm here]
      · simpa only [if_neg self] using old

omit system id in
theorem present_of_invoked {status : Status} (invoked : status.invoked) :
    status ≠ .absent := by
  intro absent
  rw [absent] at invoked
  cases invoked

/-- A continuation goes on, and is not invoked. -/
theorem Refs.setWatcher (refs : system.Refs) {watcher : Watcher α}
    (present : (system.watchers id).status ≠ .absent)
    (present' : watcher.status ≠ .absent)
    (source : watcher.source = (system.watchers id).source)
    (derived : watcher.derived = (system.watchers id).derived)
    (invoked : watcher.status.invoked = (system.watchers id).status.invoked)
    (outcome : watcher.outcome.isSome ↔ watcher.status.concluded) :
    (system.setWatcher id watcher).Refs := by
  constructor
  · intro other
    simp only [System.setWatcher, Function.update_apply]
    split
    · exact fun absent => absurd absent present'
    · exact refs.absent other
  · intro other
    simp only [System.setWatcher, Function.update_apply]
    split
    · intro _
      rw [source]
      exact refs.source id present
    · exact refs.source other
  · intro other
    simp only [System.setWatcher, Function.update_apply]
    split
    · next same =>
        intro _
        rw [derived, same]
        exact refs.owner id present
    · exact refs.owner other
  · intro future other owner
    have before := refs.derived future other owner
    simp only [System.setWatcher, Function.update_apply]
    split
    · next same =>
        rw [derived, ← same]
        exact ⟨present', before.2⟩
    · exact before
  · exact refs.callsNodup
  · intro other
    have before := refs.calls other
    simp only [System.setWatcher, Function.update_apply]
    split
    · next same =>
        rw [invoked, ← same]
        exact before
    · exact before
  · intro other
    simp only [System.setWatcher, Function.update_apply]
    split
    · rw [invoked, source]
      exact refs.ready id
    · exact refs.ready other
  · intro other
    simp only [System.setWatcher, Function.update_apply]
    split
    · exact outcome
    · exact refs.outcome other

/-- A future keeps its owner and its result. -/
theorem Refs.setFuture (refs : system.Refs) {future : FutureImpl α}
    (owner : future.owner = (system.futures id).owner)
    (result : (system.futures id).result.isSome → future.result.isSome) :
    (system.setFuture id future).Refs := by
  have owners : ∀ other, ((system.setFuture id future).futures other).owner =
      (system.futures other).owner := by
    intro other
    simp only [System.setFuture, Function.update_apply]
    split
    · next same =>
        rw [owner, same]
    · rfl
  refine ⟨refs.absent, ?_, ?_, ?_, refs.callsNodup, refs.calls, ?_,
    refs.outcome⟩
  · intro other present
    rw [owners]
    exact refs.source other present
  · intro other present
    rw [owners]
    exact refs.owner other present
  · intro made other owned
    rw [owners] at owned
    exact refs.derived made other owned
  · intro other invoked
    have before := refs.ready other invoked
    simp only [System.setFuture, Function.update_apply]
    split
    · next same =>
        rw [same] at before
        exact result before
    · exact before

/-- An address is returned by `new`, not for a continuation. -/
theorem Refs.newFuture (refs : system.Refs) {future : FutureImpl α}
    (free : (system.futures id).owner = .free) (owner : future.owner ≠ .free)
    (unowned : ∀ watcher, future.owner ≠ .watcher watcher) :
    (system.setFuture id future).Refs := by
  have others : ∀ other, (system.futures other).owner ≠ .free →
      other ≠ id := by
    rintro other taken rfl
    exact taken free
  refine ⟨refs.absent, ?_, ?_, ?_, refs.callsNodup, refs.calls, ?_,
    refs.outcome⟩
  · intro other present
    simp only [System.setFuture, Function.update_apply]
    split
    · exact owner
    · exact refs.source other present
  · intro other present
    have owned := refs.owner other present
    have elsewhere := others (system.watchers other).derived
      (by rw [owned]; simp)
    simpa only [System.setFuture, Function.update_apply,
      if_neg elsewhere] using owned
  · intro made other owned
    simp only [System.setFuture, Function.update_apply] at owned
    split at owned
    · exact absurd owned (unowned other)
    · exact refs.derived made other owned
  · intro other invoked
    have elsewhere := others _ (refs.source other (present_of_invoked invoked))
    simpa only [System.setFuture, Function.update_apply,
      if_neg elsewhere] using refs.ready other invoked

theorem Refs.invoke (refs : system.Refs)
    (waits : (system.watchers id).status = .checking ∨
      (system.watchers id).status = .listed)
    (ready : (system.futures (system.watchers id).source).result.isSome) :
    (system.invoke id).Refs := by
  have idle : (system.watchers id).status.invoked = false ∧
      (system.watchers id).status.concluded = false ∧
      (system.watchers id).status ≠ .absent := by
    rcases waits with status | status
    · rw [status]
      exact ⟨rfl, rfl, by simp⟩
    · rw [status]
      exact ⟨rfl, rfl, by simp⟩
  obtain ⟨uninvoked, unconcluded, present⟩ := idle
  have outside : id ∉ system.calls := by
    rw [refs.calls, uninvoked]
    simp
  have silent := refs.outcome id
  rw [unconcluded] at silent
  constructor
  · intro other
    simp only [System.invoke, System.setWatcher, Function.update_apply]
    split
    · simp
    · exact refs.absent other
  · intro other
    simp only [System.invoke, System.setWatcher, Function.update_apply]
    split
    · exact fun _ => refs.source id present
    · exact refs.source other
  · intro other
    simp only [System.invoke, System.setWatcher, Function.update_apply]
    split
    · next same =>
        rw [same]
        exact fun _ => refs.owner id present
    · exact refs.owner other
  · intro future other owner
    have before := refs.derived future other owner
    simp only [System.invoke, System.setWatcher, Function.update_apply]
    split
    · next same =>
        rw [same] at before
        exact ⟨by simp, before.2⟩
    · exact before
  · exact List.nodup_append.mpr ⟨refs.callsNodup, List.nodup_singleton id,
      fun first member second member' equal =>
        outside (List.mem_singleton.mp member' ▸ equal ▸ member)⟩
  · intro other
    have before := refs.calls other
    simp only [System.invoke, System.setWatcher, Function.update_apply,
      List.mem_append, List.mem_singleton]
    split
    · next same => simp [same, Status.invoked]
    · next other_ => simpa [other_] using before
  · intro other
    simp only [System.invoke, System.setWatcher, Function.update_apply]
    split
    · exact fun _ => ready
    · exact refs.ready other
  · intro other
    simp only [System.invoke, System.setWatcher, Function.update_apply]
    split
    · exact silent
    · exact refs.outcome other

theorem Refs.registered (refs : system.Refs) {source derived : ℕ}
    {callback : Callback} (fresh : system.Fresh source id derived) :
    (system.registered source id derived callback).Refs := by
  have absent := refs.absent id fresh.watcher
  have others : ∀ other, (system.futures other).owner ≠ .free →
      other ≠ derived := by
    rintro other taken rfl
    exact taken fresh.derived
  have unowned : ∀ future, (system.futures future).owner ≠ .watcher id := by
    intro future owner
    exact (refs.derived future id owner).1 fresh.watcher
  constructor
  · intro other
    simp only [System.registered, System.setWatcher, System.setFuture,
      Function.update_apply]
    split
    · simp
    · exact refs.absent other
  · intro other
    simp only [System.registered, System.setWatcher, System.setFuture,
      Function.update_apply]
    split
    · intro _
      simpa only [if_neg (others source fresh.source)] using fresh.source
    · intro present
      have old := refs.source other present
      simpa only [if_neg (others _ old)] using old
  · intro other
    simp only [System.registered, System.setWatcher, System.setFuture,
      Function.update_apply]
    split
    · next same =>
        intro _
        simp [same]
    · intro present
      have old := refs.owner other present
      have elsewhere := others (system.watchers other).derived
        (by rw [old]; simp)
      simpa only [if_neg elsewhere] using old
  · intro future other owner
    simp only [System.registered, System.setWatcher, System.setFuture,
      Function.update_apply] at owner ⊢
    split at owner
    · next same =>
        cases owner
        simp [same]
    · have before := refs.derived future other owner
      have distinct : other ≠ id := by
        rintro rfl
        exact unowned future owner
      simpa only [if_neg distinct] using before
  · exact refs.callsNodup
  · intro other
    have before := refs.calls other
    simp only [System.registered, System.setWatcher, System.setFuture,
      Function.update_apply]
    split
    · next same =>
        rw [same, fresh.watcher] at before
        rw [same]
        exact before
    · exact before
  · intro other
    simp only [System.registered, System.setWatcher, System.setFuture,
      Function.update_apply]
    split
    · exact fun invoked => by cases invoked
    · intro invoked
      have elsewhere :=
        others _ (refs.source other (present_of_invoked invoked))
      simpa only [if_neg elsewhere] using refs.ready other invoked
  · intro other
    simp only [System.registered, System.setWatcher, System.setFuture,
      Function.update_apply]
    split
    · simp [Status.concluded]
    · exact refs.outcome other

end System

end TarsCpp.Promise
