import TarsCpp.Promise.Lists

/-!
# The futures that `WhenAll` returns

The callbacks of `WhenAll` store their inputs at different positions, and each
of them counts once.  The last one finds all positions filled and all inputs
complete, and it alone completes the promise.
-/

namespace TarsCpp.Promise

variable {α : Type}

/-- The future has been stored at its position. -/
def Status.hasStored : Status → Bool
  | .stored | .last | .replied | .finished => true
  | .absent | .checking | .appending | .listed | .running => false

/-- The callback has counted. -/
def Status.counted : Status → Bool
  | .last | .replied | .finished => true
  | .absent | .checking | .appending | .listed | .running | .stored => false

def Status.isLast : Status → Bool
  | .last => true
  | .absent | .checking | .appending | .listed | .running | .stored
  | .replied | .finished => false

namespace System

/-- How many callbacks of `WhenAll` are that far. -/
def count (system : System α) (stage : Status → Bool) (group : ℕ) : ℕ :=
  (system.groups group).members.countP fun id =>
    stage (system.watchers id).status

/-- What holds of the callbacks of one `WhenAll`. -/
structure Gathers (system : System α) (id : ℕ) : Prop where
  owner : (system.futures (system.groups id).promise).owner = .group id
  small : (system.groups id).inputs.length < 2 ^ 31
  few : (system.groups id).members.length ≤ (system.groups id).inputs.length
  size : (system.groups id).futures.length = (system.groups id).inputs.length
  member : ∀ (n watcher : ℕ), (system.groups id).members[n]? = some watcher →
    (system.watchers watcher).callback = .onFuture id n ∧
      (system.groups id).inputs[n]? = some (system.watchers watcher).source
  stored : ∀ (n watcher : ℕ), (system.groups id).members[n]? = some watcher →
    (system.watchers watcher).status.hasStored = true →
    (system.groups id).futures[n]? =
      some (some (system.watchers watcher).source)
  waitCount : (system.groups id).waitCount =
    (system.groups id).inputs.length - (system.count Status.counted id : ℤ)
  promised : system.count Status.isLast id +
      (if (system.futures (system.groups id).promise).result.isSome
        then 1 else 0) =
    if system.count Status.counted id = (system.groups id).inputs.length
      then 1 else 0
  result : ∀ result,
    (system.futures (system.groups id).promise).result = some result →
    result = .ok (.futures ((system.groups id).inputs.map some)) ∧
      ∀ input ∈ (system.groups id).inputs,
        (system.futures input).result.isSome

structure Groups (system : System α) : Prop where
  gathers : ∀ id, (system.groups id).created = true → system.Gathers id
  uncreated : ∀ id, (system.groups id).created = false →
    (system.groups id).inputs = []
  inputs : ∀ id, (system.groups id).created = true →
    ∀ input ∈ (system.groups id).inputs, (system.futures input).owner ≠ .free
  known : ∀ (watcher id n : ℕ),
    (system.watchers watcher).callback = .onFuture id n →
    (system.groups id).created = true ∧
      (system.groups id).members[n]? = some watcher

variable {system next : System α} {id : ℕ}

theorem countP_keeps {stage stage' : ℕ → Bool} {members : List ℕ}
    (same : ∀ member ∈ members, stage' member = stage member) :
    members.countP stage' = members.countP stage := by
  apply List.countP_congr
  intro member among
  rw [same member among]

/-- One member goes from one stage to another. -/
theorem countP_update {stage stage' : ℕ → Bool} {members : List ℕ}
    {member : ℕ} (nodup : members.Nodup) (among : member ∈ members)
    (same : ∀ other, other ≠ member → stage' other = stage other) :
    members.countP stage' + (if stage member then 1 else 0) =
      members.countP stage + if stage' member then 1 else 0 := by
  induction members with
  | nil => cases among
  | cons first members ih =>
      obtain ⟨fresh, nodup'⟩ := List.nodup_cons.mp nodup
      simp only [List.countP_cons]
      by_cases here : first = member
      · subst here
        have rest : members.countP stage' = members.countP stage :=
          countP_keeps fun other among' =>
            same other fun equal => fresh (equal ▸ among')
        rw [rest]
        omega
      · have later : member ∈ members := by
          rcases List.mem_cons.mp among with equal | later
          · exact absurd equal.symm here
          · exact later
        have rest := ih nodup' later
        rw [same first here]
        omega

theorem Gathers.nodup (gathers : system.Gathers id) :
    (system.groups id).members.Nodup := by
  rw [List.nodup_iff_injective_getElem]
  intro first second equal
  have callback := (gathers.member first _
    (List.getElem?_eq_getElem first.isLt)).1
  have callback' := (gathers.member second _
    (List.getElem?_eq_getElem second.isLt)).1
  dsimp only at equal
  rw [equal, callback'] at callback
  exact Fin.ext (Callback.onFuture.inj callback).2.symm

/-- Nothing that a group looks at changes. -/
theorem Gathers.keeps (gathers : system.Gathers id)
    (group : next.groups id = system.groups id)
    (owner : (next.futures (system.groups id).promise).owner =
      (system.futures (system.groups id).promise).owner)
    (result : (next.futures (system.groups id).promise).result =
      (system.futures (system.groups id).promise).result)
    (results : ∀ other, (system.futures other).result.isSome →
      (next.futures other).result.isSome)
    (members : ∀ watcher ∈ (system.groups id).members,
      (next.watchers watcher).callback = (system.watchers watcher).callback ∧
      (next.watchers watcher).source = (system.watchers watcher).source ∧
      (next.watchers watcher).status.hasStored =
        (system.watchers watcher).status.hasStored ∧
      (next.watchers watcher).status.counted =
        (system.watchers watcher).status.counted ∧
      (next.watchers watcher).status.isLast =
        (system.watchers watcher).status.isLast) : next.Gathers id := by
  have counted : next.count Status.counted id =
      system.count Status.counted id := by
    rw [count, group]
    exact countP_keeps fun member among => (members member among).2.2.2.1
  have last : next.count Status.isLast id =
      system.count Status.isLast id := by
    rw [count, group]
    exact countP_keeps fun member among => (members member among).2.2.2.2
  constructor
  · rw [group, owner]
    exact gathers.owner
  · rw [group]
    exact gathers.small
  · rw [group]
    exact gathers.few
  · rw [group]
    exact gathers.size
  · intro n watcher found
    rw [group] at found ⊢
    obtain ⟨callback, source, _⟩ :=
      members watcher (List.mem_of_getElem? found)
    rw [callback, source]
    exact gathers.member n watcher found
  · intro n watcher found stored
    rw [group] at found ⊢
    obtain ⟨_, source, stored', _⟩ :=
      members watcher (List.mem_of_getElem? found)
    rw [stored'] at stored
    rw [source]
    exact gathers.stored n watcher found stored
  · rw [group, counted]
    exact gathers.waitCount
  · rw [group, counted, last, result]
    exact gathers.promised
  · intro found done
    rw [group] at done ⊢
    rw [result] at done
    obtain ⟨same, ready⟩ := gathers.result found done
    exact ⟨same, fun input among => results input (ready input among)⟩

/-- A step that no callback of `WhenAll` makes. -/
theorem Groups.keeps (groups : system.Groups)
    (same : next.groups = system.groups)
    (owner : ∀ future, (system.futures future).owner ≠ .free →
      (next.futures future).owner = (system.futures future).owner)
    (result : ∀ future group, (system.futures future).owner = .group group →
      (next.futures future).result = (system.futures future).result)
    (results : ∀ future, (system.futures future).result.isSome →
      (next.futures future).result.isSome)
    (members : ∀ (watcher group n : ℕ),
      (system.watchers watcher).callback = .onFuture group n →
      (next.watchers watcher).callback = (system.watchers watcher).callback ∧
      (next.watchers watcher).source = (system.watchers watcher).source ∧
      (next.watchers watcher).status.hasStored =
        (system.watchers watcher).status.hasStored ∧
      (next.watchers watcher).status.counted =
        (system.watchers watcher).status.counted ∧
      (next.watchers watcher).status.isLast =
        (system.watchers watcher).status.isLast)
    (known : ∀ (watcher group n : ℕ),
      (next.watchers watcher).callback = .onFuture group n →
      (system.watchers watcher).callback = .onFuture group n) :
    next.Groups := by
  constructor
  · intro id created
    rw [same] at created
    have gathers := groups.gathers id created
    apply gathers.keeps
    · rw [same]
    · exact owner _ (by rw [gathers.owner]; simp)
    · exact result _ id gathers.owner
    · exact results
    · intro watcher among
      obtain ⟨n, found⟩ := List.mem_iff_getElem?.mp among
      exact members watcher id n (gathers.member n watcher found).1
  · intro id uncreated
    rw [same] at uncreated ⊢
    exact groups.uncreated id uncreated
  · intro id created input among
    rw [same] at created among
    have old := groups.inputs id created input among
    rw [owner input old]
    exact old
  · intro watcher id n found
    rw [same]
    exact groups.known watcher id n (known watcher id n found)

theorem Groups.setWatcher (groups : system.Groups) {watcher : Watcher α}
    (callback : watcher.callback = (system.watchers id).callback)
    (source : watcher.source = (system.watchers id).source)
    (stages : ∀ group n, watcher.callback = .onFuture group n →
      watcher.status.hasStored = (system.watchers id).status.hasStored ∧
      watcher.status.counted = (system.watchers id).status.counted ∧
      watcher.status.isLast = (system.watchers id).status.isLast) :
    (system.setWatcher id watcher).Groups := by
  apply groups.keeps
  · rfl
  · exact fun _ _ => rfl
  · exact fun _ _ _ => rfl
  · exact fun _ done => done
  · intro other group n found
    simp only [System.setWatcher, Function.update_apply]
    split
    · next same =>
        subst same
        exact ⟨callback, source, stages group n (callback.trans found)⟩
    · exact ⟨rfl, rfl, rfl, rfl, rfl⟩
  · intro other group n found
    simp only [System.setWatcher, Function.update_apply] at found
    split at found
    · next same =>
        rw [same, ← callback]
        exact found
    · exact found

/-- A future changes that is not the one of a `WhenAll`. -/
theorem Groups.setFuture (groups : system.Groups) {future : FutureImpl α}
    (owner : (system.futures id).owner ≠ .free →
      future.owner = (system.futures id).owner)
    (result : ∀ group, (system.futures id).owner = .group group →
      future.result = (system.futures id).result)
    (results : (system.futures id).result.isSome → future.result.isSome) :
    (system.setFuture id future).Groups := by
  apply groups.keeps
  · rfl
  · intro other taken
    simp only [System.setFuture, Function.update_apply]
    split
    · next same =>
        rw [same] at taken ⊢
        exact owner taken
    · rfl
  · intro other group owned
    simp only [System.setFuture, Function.update_apply]
    split
    · next same =>
        rw [same] at owned ⊢
        exact result group owned
    · rfl
  · intro other done
    simp only [System.setFuture, Function.update_apply]
    split
    · next same =>
        rw [same] at done
        exact results done
    · exact done
  · exact fun _ _ _ _ => ⟨rfl, rfl, rfl, rfl, rfl⟩
  · exact fun _ _ _ found => found

theorem Groups.complete (groups : system.Groups) (result : Result α)
    (unowned : ∀ group, (system.futures id).owner ≠ .group group) :
    (system.complete id result).Groups := by
  apply groups.setFuture
  · exact fun _ => rfl
  · exact fun group owned => absurd owned (unowned group)
  · exact fun _ => rfl

theorem Groups.newFuture (groups : system.Groups) (lists : system.Lists)
    {future : FutureImpl α} (free : (system.futures id).owner = .free) :
    (system.setFuture id future).Groups := by
  apply groups.setFuture
  · exact fun taken => absurd free taken
  · intro group owned
    rw [free] at owned
    cases owned
  · intro done
    rw [lists.free id free] at done
    cases done

theorem Groups.registered (groups : system.Groups) (refs : system.Refs)
    (lists : system.Lists) {source derived : ℕ} {callback : Callback}
    (fresh : system.Fresh source id derived)
    (other : ∀ group n, callback ≠ .onFuture group n) :
    (system.registered source id derived callback).Groups := by
  have absent := refs.absent id fresh.watcher
  have made : (system.setFuture derived { owner := .watcher id }).Groups :=
    groups.newFuture lists fresh.derived
  apply made.keeps
  · rfl
  · exact fun _ _ => rfl
  · exact fun _ _ _ => rfl
  · exact fun _ done => done
  · intro watcher group n found
    have different : watcher ≠ id := by
      rintro rfl
      change (system.watchers watcher).callback = _ at found
      rw [absent] at found
      cases found
    simp [System.registered, System.setWatcher, System.setFuture, different]
  · intro watcher group n found
    simp only [System.registered, System.setWatcher,
      Function.update_apply] at found
    split at found
    · exact absurd found (other group n)
    · exact found

/-- The next input is given a continuation. -/
theorem Groups.register (groups : system.Groups) (refs : system.Refs)
    (lists : system.Lists) {group source derived : ℕ}
    (found : (system.groups group).inputs[
      (system.groups group).members.length]? = some source)
    (fresh : system.Fresh source id derived) :
    ((system.registered source id derived
      (.onFuture group (system.groups group).members.length)).setGroup group
        { system.groups group with
          members := (system.groups group).members ++ [id] }).Groups := by
  have created : (system.groups group).created = true := by
    cases created : (system.groups group).created with
    | true => rfl
    | false =>
        rw [groups.uncreated group created] at found
        cases found
  have gathers := groups.gathers group created
  have absent := refs.absent id fresh.watcher
  have room := (List.getElem?_eq_some_iff.mp found).1
  generalize after : (system.registered source id derived
    (.onFuture group (system.groups group).members.length)).setGroup group
      { system.groups group with
        members := (system.groups group).members ++ [id] } = next
  have new_ : next.watchers id =
      { source, callback := .onFuture group (system.groups group).members.length,
        derived, status := .checking } := by
    rw [← after]
    simp [System.setGroup, System.registered, System.setWatcher]
  have kept : ∀ other, other ≠ id →
      next.watchers other = system.watchers other := by
    intro other different
    rw [← after]
    simp [System.setGroup, System.registered, System.setWatcher,
      System.setFuture, different]
  have grown : next.groups group = { system.groups group with
      members := (system.groups group).members ++ [id] } := by
    rw [← after]
    simp [System.setGroup]
  have others : ∀ other, other ≠ group →
      next.groups other = system.groups other := by
    intro other different
    rw [← after]
    simp [System.setGroup, System.registered, System.setWatcher,
      System.setFuture, different]
  have futures : ∀ other, other ≠ derived →
      next.futures other = system.futures other := by
    intro other different
    rw [← after]
    simp [System.setGroup, System.registered, System.setWatcher,
      System.setFuture, different]
  have taken : ∀ other, (system.futures other).owner ≠ .free →
      next.futures other = system.futures other := by
    intro other taken
    apply futures
    rintro rfl
    exact taken fresh.derived
  have results : ∀ other, (system.futures other).result.isSome →
      (next.futures other).result.isSome := by
    intro other done
    rw [taken]
    · exact done
    · intro free
      rw [lists.free other free] at done
      cases done
  have older : ∀ (watcher : ℕ) (all n : ℕ),
      (system.watchers watcher).callback = .onFuture all n →
      next.watchers watcher = system.watchers watcher := by
    intro watcher all n callback
    apply kept
    rintro rfl
    rw [absent] at callback
    cases callback
  have members : ∀ watcher ∈ (system.groups group).members,
      next.watchers watcher = system.watchers watcher := by
    intro watcher among
    obtain ⟨n, found⟩ := List.mem_iff_getElem?.mp among
    exact older watcher group n (gathers.member n watcher found).1
  have counts : ∀ stage : Status → Bool, stage .checking = false →
      next.count stage group = system.count stage group := by
    intro stage early
    rw [count, grown, List.countP_append, List.countP_singleton, new_, early]
    simp only [Bool.false_eq_true, if_false, add_zero]
    exact countP_keeps fun member among => by rw [members member among]
  constructor
  · intro all created'
    by_cases same : all = group
    · subst same
      have promise := taken (system.groups all).promise
        (by rw [gathers.owner]; simp)
      constructor
      · rw [grown]
        change (next.futures (system.groups all).promise).owner = _
        rw [promise]
        exact gathers.owner
      · rw [grown]
        exact gathers.small
      · rw [grown, List.length_append]
        exact room
      · rw [grown]
        exact gathers.size
      · intro n watcher found'
        rw [grown] at found' ⊢
        rcases Nat.lt_trichotomy n (system.groups all).members.length with
          less | equal | more
        · rw [List.getElem?_append_left less] at found'
          have before := gathers.member n watcher found'
          rw [members watcher (List.mem_of_getElem? found')]
          exact before
        · subst equal
          rw [List.getElem?_concat_length] at found'
          obtain rfl := Option.some.inj found'
          rw [new_]
          exact ⟨rfl, found⟩
        · rw [List.getElem?_eq_none (by simpa using more)] at found'
          cases found'
      · intro n watcher found' stored
        rw [grown] at found' ⊢
        rcases Nat.lt_trichotomy n (system.groups all).members.length with
          less | equal | more
        · rw [List.getElem?_append_left less] at found'
          rw [members watcher (List.mem_of_getElem? found')] at stored ⊢
          exact gathers.stored n watcher found' stored
        · subst equal
          rw [List.getElem?_concat_length] at found'
          obtain rfl := Option.some.inj found'
          rw [new_] at stored
          cases stored
        · rw [List.getElem?_eq_none (by simpa using more)] at found'
          cases found'
      · rw [grown, counts _ rfl]
        exact gathers.waitCount
      · rw [grown, counts _ rfl, counts _ rfl]
        change _ + (if (next.futures (system.groups all).promise).result.isSome
          then 1 else 0) = _
        rw [promise]
        exact gathers.promised
      · intro result done
        rw [grown] at done ⊢
        change (next.futures (system.groups all).promise).result = _ at done
        rw [promise] at done
        obtain ⟨equal, ready⟩ := gathers.result result done
        exact ⟨equal, fun input among => results input (ready input among)⟩
    · rw [others all same] at created'
      have gathers' := groups.gathers all created'
      have promise := taken (system.groups all).promise
        (by rw [gathers'.owner]; simp)
      apply gathers'.keeps
      · exact others all same
      · rw [promise]
      · rw [promise]
      · exact results
      · intro watcher among
        obtain ⟨n, found'⟩ := List.mem_iff_getElem?.mp among
        rw [older watcher all n (gathers'.member n watcher found').1]
        exact ⟨rfl, rfl, rfl, rfl, rfl⟩
  · intro all uncreated
    by_cases same : all = group
    · subst same
      rw [grown] at uncreated
      rw [created] at uncreated
      cases uncreated
    · rw [others all same] at uncreated ⊢
      exact groups.uncreated all uncreated
  · intro all created' input among
    by_cases same : all = group
    · subst same
      rw [grown] at among
      have old := groups.inputs all created input among
      rw [taken input old]
      exact old
    · rw [others all same] at created' among
      have old := groups.inputs all created' input among
      rw [taken input old]
      exact old
  · intro watcher all n callback
    by_cases same : watcher = id
    · rw [same, new_] at callback
      cases callback
      rw [grown, same]
      exact ⟨created, List.getElem?_concat_length⟩
    · rw [kept watcher same] at callback
      obtain ⟨created', found'⟩ := groups.known watcher all n callback
      by_cases here : all = group
      · subst here
        rw [grown]
        exact ⟨created, List.getElem?_append_left
          (List.getElem?_eq_some_iff.mp found').1 |>.trans found'⟩
      · rw [others all here]
        exact ⟨created', found'⟩

/-- A callback of `WhenAll` goes on. -/
structure Advances (system : System α) (id group n : ℕ)
    (next : System α) : Prop where
  callback : (system.watchers id).callback = .onFuture group n
  same : (next.watchers id).callback = (system.watchers id).callback ∧
    (next.watchers id).source = (system.watchers id).source
  others : ∀ other, other ≠ id → next.watchers other = system.watchers other
  groups : ∀ other, other ≠ group → next.groups other = system.groups other
  created : (next.groups group).created = (system.groups group).created
  promise : (next.groups group).promise = (system.groups group).promise
  inputs : (next.groups group).inputs = (system.groups group).inputs
  members : (next.groups group).members = (system.groups group).members
  owner : ∀ future, (next.futures future).owner = (system.futures future).owner
  result : ∀ future, future ≠ (system.groups group).promise →
    (next.futures future).result = (system.futures future).result
  results : ∀ future, (system.futures future).result.isSome →
    (next.futures future).result.isSome

section Advances

variable {group n : ℕ} (advances : system.Advances id group n next)
  (groups : system.Groups)

include advances

theorem Advances.watcher (other : ℕ) :
    (next.watchers other).callback = (system.watchers other).callback ∧
      (next.watchers other).source = (system.watchers other).source := by
  by_cases here : other = id
  · rw [here]
    exact advances.same
  · rw [advances.others other here]
    exact ⟨rfl, rfl⟩

include groups

theorem Advances.gathers : system.Gathers group :=
  groups.gathers group (groups.known id group n advances.callback).1

theorem Advances.among : id ∈ (system.groups group).members :=
  List.mem_of_getElem? (groups.known id group n advances.callback).2

theorem Advances.count (stage : Status → Bool) :
    next.count stage group +
        (if stage (system.watchers id).status then 1 else 0) =
      system.count stage group +
        if stage (next.watchers id).status then 1 else 0 := by
  rw [System.count, advances.members]
  apply countP_update (advances.gathers groups).nodup (advances.among groups)
  intro other different
  rw [advances.others other different]

theorem Advances.groups_ (gathers : next.Gathers group) : next.Groups := by
  constructor
  · intro other created
    by_cases same : other = group
    · rw [same]
      exact gathers
    · rw [advances.groups other same] at created
      have before := groups.gathers other created
      apply before.keeps
      · exact advances.groups other same
      · exact advances.owner _
      · apply advances.result
        intro equal
        have owner := before.owner
        rw [equal, (advances.gathers groups).owner] at owner
        exact same (Owner.group.inj owner).symm
      · exact advances.results
      · intro watcher among
        obtain ⟨m, found⟩ := List.mem_iff_getElem?.mp among
        have different : watcher ≠ id := by
          rintro rfl
          have callback := (before.member m watcher found).1
          rw [advances.callback] at callback
          exact same (Callback.onFuture.inj callback).1.symm
        rw [advances.others watcher different]
        exact ⟨rfl, rfl, rfl, rfl, rfl⟩
  · intro other uncreated
    by_cases same : other = group
    · subst same
      rw [advances.created] at uncreated
      rw [advances.inputs]
      exact groups.uncreated other uncreated
    · rw [advances.groups other same] at uncreated ⊢
      exact groups.uncreated other uncreated
  · intro other created input among
    rw [advances.owner]
    by_cases same : other = group
    · subst same
      rw [advances.created] at created
      rw [advances.inputs] at among
      exact groups.inputs other created input among
    · rw [advances.groups other same] at created among
      exact groups.inputs other created input among
  · intro watcher other m found
    rw [(advances.watcher watcher).1] at found
    have before := groups.known watcher other m found
    by_cases same : other = group
    · subst same
      rw [advances.created, advances.members]
      exact before
    · rw [advances.groups other same]
      exact before

/-- What is left to show of the group itself. -/
theorem Advances.gathers_of
    (size : (next.groups group).futures.length =
      (system.groups group).futures.length)
    (stored : ∀ (m watcher : ℕ),
      (system.groups group).members[m]? = some watcher →
      (next.watchers watcher).status.hasStored = true →
      (next.groups group).futures[m]? =
        some (some (system.watchers watcher).source))
    (waitCount : (next.groups group).waitCount =
      (system.groups group).inputs.length -
        (next.count Status.counted group : ℤ))
    (promised : next.count Status.isLast group +
        (if (next.futures (system.groups group).promise).result.isSome
          then 1 else 0) =
      if next.count Status.counted group =
        (system.groups group).inputs.length then 1 else 0)
    (result : ∀ result,
      (next.futures (system.groups group).promise).result = some result →
      (system.futures (system.groups group).promise).result = some result ∨
      (result = .ok (.futures ((system.groups group).inputs.map some)) ∧
        ∀ input ∈ (system.groups group).inputs,
          (system.futures input).result.isSome)) : next.Gathers group := by
  have before := advances.gathers groups
  constructor
  · rw [advances.promise, advances.owner]
    exact before.owner
  · rw [advances.inputs]
    exact before.small
  · rw [advances.inputs, advances.members]
    exact before.few
  · rw [advances.inputs, size]
    exact before.size
  · intro m watcher found
    rw [advances.members] at found
    rw [advances.inputs, (advances.watcher watcher).1,
      (advances.watcher watcher).2]
    exact before.member m watcher found
  · intro m watcher found done
    rw [advances.members] at found
    rw [(advances.watcher watcher).2]
    exact stored m watcher found done
  · rw [advances.inputs]
    exact waitCount
  · rw [advances.inputs, advances.promise]
    exact promised
  · intro found done
    rw [advances.promise] at done
    rw [advances.inputs]
    rcases result found done with old | ⟨equal, ready⟩
    · obtain ⟨equal, ready⟩ := before.result found old
      exact ⟨equal, fun input among => advances.results input
        (ready input among)⟩
    · exact ⟨equal, fun input among => advances.results input
        (ready input among)⟩

end Advances

theorem toInt_of_small {value : ℤ} (least : -2 ^ 31 ≤ value)
    (greatest : value < 2 ^ 31) : toInt value = value := by
  rw [toInt, Int.bmod_def]
  split <;> omega

theorem Status.hasStored_of_counted {status : Status}
    (counted : status.counted = true) : status.hasStored = true := by
  cases status with
  | last => rfl
  | replied => rfl
  | finished => rfl
  | absent => cases counted
  | checking => cases counted
  | appending => cases counted
  | listed => cases counted
  | running => cases counted
  | stored => cases counted

theorem Status.invoked_of_counted {status : Status}
    (counted : status.counted = true) : status.invoked = true := by
  cases status with
  | last => rfl
  | replied => rfl
  | finished => rfl
  | absent => cases counted
  | checking => cases counted
  | appending => cases counted
  | listed => cases counted
  | running => cases counted
  | stored => cases counted

section Callbacks

variable {group n : ℕ}

theorem Groups.store (groups : system.Groups)
    (status : (system.watchers id).status = .running)
    (callback : (system.watchers id).callback = .onFuture group n) :
    ((system.setGroup group
      { system.groups group with
        futures := (system.groups group).futures.set n
          (some (system.watchers id).source) }).setStatus id
            .stored).Groups := by
  generalize after : (system.setGroup group
    { system.groups group with
      futures := (system.groups group).futures.set n
        (some (system.watchers id).source) }).setStatus id .stored = next
  have new_ : next.watchers id =
      { system.watchers id with status := .stored } := by
    rw [← after]
    simp [System.setStatus, System.setWatcher, System.setGroup]
  have filled : next.groups group = { system.groups group with
      futures := (system.groups group).futures.set n
        (some (system.watchers id).source) } := by
    rw [← after]
    simp [System.setStatus, System.setWatcher, System.setGroup]
  have futures : next.futures = system.futures := by
    rw [← after]
    rfl
  have advances : system.Advances id group n next := by
    refine ⟨callback, by rw [new_]; exact ⟨rfl, rfl⟩, ?_, ?_, by rw [filled],
      by rw [filled], by rw [filled], by rw [filled], ?_, ?_, ?_⟩
    · intro other different
      rw [← after]
      simp [System.setStatus, System.setWatcher, System.setGroup, different]
    · intro other different
      rw [← after]
      simp [System.setStatus, System.setWatcher, System.setGroup, different]
    · exact fun future => by rw [futures]
    · exact fun future _ => by rw [futures]
    · exact fun future done => by rw [futures]; exact done
  have gathers := advances.gathers groups
  have place := (groups.known id group n callback).2
  have room : n < (system.groups group).futures.length := by
    rw [gathers.size]
    exact (List.getElem?_eq_some_iff.mp place).1.trans_le gathers.few
  have counted := advances.count groups Status.counted
  have last := advances.count groups Status.isLast
  rw [new_, status] at counted last
  simp only [Status.counted, Status.isLast, Bool.false_eq_true, if_false,
    add_zero] at counted last
  apply advances.groups_ groups
  apply advances.gathers_of groups
  · rw [filled]
    exact List.length_set
  · intro m watcher found done
    rw [filled]
    by_cases same : watcher = id
    · subst same
      have here := (gathers.member m watcher found).1
      rw [callback] at here
      obtain rfl := (Callback.onFuture.inj here).2
      exact List.getElem?_set_self room
    · rw [advances.others watcher same] at done
      have different : n ≠ m := by
        rintro rfl
        exact same (Option.some.inj (found.symm.trans place))
      rw [List.getElem?_set_ne different]
      exact gathers.stored m watcher found done
  · rw [filled, counted]
    exact gathers.waitCount
  · rw [futures, counted, last]
    exact gathers.promised
  · intro result done
    rw [futures] at done
    exact .inl done

/-- Before a callback counts there is something left to count. -/
theorem Groups.uncounted (groups : system.Groups)
    (status : (system.watchers id).status = .stored)
    (callback : (system.watchers id).callback = .onFuture group n) :
    system.count Status.counted group <
      (system.groups group).inputs.length := by
  obtain ⟨created, place⟩ := groups.known id group n callback
  have gathers := groups.gathers group created
  refine lt_of_lt_of_le ?_ gathers.few
  rw [System.count, List.countP_lt_length_iff]
  exact ⟨id, List.mem_of_getElem? place, by rw [status]; rfl⟩

/-- A callback has counted. -/
theorem Groups.countDown (groups : system.Groups)
    {stage : Status} {outcome : Option (Outcome α)}
    (status : (system.watchers id).status = .stored)
    (callback : (system.watchers id).callback = .onFuture group n)
    (counted : stage.counted = true)
    (last : stage.isLast = true ↔
      ¬ (system.groups group).waitCount > 1) :
    ((system.setGroup group
      { system.groups group with
        waitCount := toInt ((system.groups group).waitCount - 1) }).setWatcher
          id { system.watchers id with
            status := stage
            outcome := outcome }).Groups := by
  generalize after : (system.setGroup group
    { system.groups group with
      waitCount := toInt ((system.groups group).waitCount - 1) }).setWatcher
        id { system.watchers id with
          status := stage
          outcome := outcome } = next
  have new_ : next.watchers id =
      { system.watchers id with status := stage, outcome := outcome } := by
    rw [← after]
    simp [System.setWatcher, System.setGroup]
  have less : next.groups group = { system.groups group with
      waitCount := toInt ((system.groups group).waitCount - 1) } := by
    rw [← after]
    simp [System.setWatcher, System.setGroup]
  have futures : next.futures = system.futures := by
    rw [← after]
    rfl
  have advances : system.Advances id group n next := by
    refine ⟨callback, by rw [new_]; exact ⟨rfl, rfl⟩, ?_, ?_, by rw [less],
      by rw [less], by rw [less], by rw [less], ?_, ?_, ?_⟩
    · intro other different
      rw [← after]
      simp [System.setWatcher, System.setGroup, different]
    · intro other different
      rw [← after]
      simp [System.setWatcher, System.setGroup, different]
    · exact fun future => by rw [futures]
    · exact fun future _ => by rw [futures]
    · exact fun future done => by rw [futures]; exact done
  have gathers := advances.gathers groups
  have left_ := groups.uncounted status callback
  have waitCount := gathers.waitCount
  have promised := gathers.promised
  have small := gathers.small
  have more := advances.count groups Status.counted
  have lasts := advances.count groups Status.isLast
  have uncounted : Status.counted .stored = false := rfl
  have before : Status.isLast .stored = false := rfl
  rw [new_, status] at more lasts
  simp only [uncounted, counted, Bool.false_eq_true, if_false, if_true,
    add_zero] at more
  simp only [before, Bool.false_eq_true, if_false, add_zero] at lasts
  rw [if_neg left_.ne] at promised
  apply advances.groups_ groups
  apply advances.gathers_of groups
  · rw [less]
  · intro m watcher found done
    rw [less]
    by_cases same : watcher = id
    · subst same
      exact gathers.stored m watcher found (by rw [status]; rfl)
    · rw [advances.others watcher same] at done
      exact gathers.stored m watcher found done
  · rw [less, more]
    change toInt ((system.groups group).waitCount - 1) = _
    rw [toInt_of_small (by omega) (by omega), waitCount]
    push_cast
    omega
  · rw [futures, more, lasts]
    by_cases final : stage.isLast = true
    · have one := last.mp final
      have all : system.count Status.counted group + 1 =
          (system.groups group).inputs.length := by omega
      rw [if_pos final, if_pos all]
      omega
    · have many : (system.groups group).waitCount > 1 := by
        by_contra one
        exact final (last.mpr one)
      have some_ : system.count Status.counted group + 1 ≠
          (system.groups group).inputs.length := by omega
      rw [if_neg final, if_neg some_]
      omega
  · intro result done
    rw [futures] at done
    exact .inl done

/-- The last callback finds all inputs. -/
theorem Groups.filled (groups : system.Groups) (refs : system.Refs)
    (status : (system.watchers id).status = .last)
    (callback : (system.watchers id).callback = .onFuture group n) :
    (system.futures (system.groups group).promise).result = none ∧
      system.count Status.isLast group = 1 ∧
      system.count Status.counted group =
        (system.groups group).inputs.length ∧
      (system.groups group).futures =
        (system.groups group).inputs.map some ∧
      ∀ input ∈ (system.groups group).inputs,
        (system.futures input).result.isSome := by
  obtain ⟨created, place⟩ := groups.known id group n callback
  have gathers := groups.gathers group created
  have promised := gathers.promised
  have some_ : 0 < system.count Status.isLast group := by
    rw [System.count, List.countP_pos_iff]
    exact ⟨id, List.mem_of_getElem? place, by rw [status]; rfl⟩
  have all : system.count Status.counted group =
      (system.groups group).inputs.length := by
    by_contra some_left
    rw [if_neg some_left] at promised
    omega
  rw [if_pos all] at promised
  have open_ : (system.futures (system.groups group).promise).result =
      none := by
    cases found : (system.futures (system.groups group).promise).result with
    | none => rfl
    | some result =>
        rw [found] at promised
        simp only [Option.isSome_some, if_true] at promised
        omega
  rw [open_] at promised
  have length : (system.groups group).members.length =
      (system.groups group).inputs.length := by
    have atMost := List.countP_le_length
      (p := fun id => (system.watchers id).status.counted)
      (l := (system.groups group).members)
    have few := gathers.few
    unfold System.count at all
    omega
  have counted : ∀ watcher ∈ (system.groups group).members,
      (system.watchers watcher).status.counted = true := by
    rw [← length] at all
    exact List.countP_eq_length.mp all
  have position : ∀ m input : ℕ, (system.groups group).inputs[m]? = some input →
      ∃ watcher, (system.groups group).members[m]? = some watcher ∧
        (system.watchers watcher).source = input := by
    intro m input found
    have room := (List.getElem?_eq_some_iff.mp found).1
    rw [← length] at room
    have member := List.getElem?_eq_getElem room
    refine ⟨_, member, ?_⟩
    have source := (gathers.member m _ member).2
    exact Option.some.inj (source.symm.trans found)
  refine ⟨open_, by simpa using promised, all, ?_, ?_⟩
  · apply List.ext_getElem?
    intro m
    rw [List.getElem?_map]
    cases found : (system.groups group).inputs[m]? with
    | none =>
        have beyond := List.getElem?_eq_none_iff.mp found
        rw [← gathers.size] at beyond
        rw [List.getElem?_eq_none beyond]
        rfl
    | some input =>
        obtain ⟨watcher, member, source⟩ := position m input found
        have done := counted watcher (List.mem_of_getElem? member)
        rw [gathers.stored m watcher member
          (Status.hasStored_of_counted done), source]
        rfl
  · intro input among
    obtain ⟨m, found⟩ := List.mem_iff_getElem?.mp among
    obtain ⟨watcher, member, source⟩ := position m input found
    have done := counted watcher (List.mem_of_getElem? member)
    rw [← source]
    exact refs.ready watcher (Status.invoked_of_counted done)

theorem Groups.finish (groups : system.Groups) (refs : system.Refs)
    (status : (system.watchers id).status = .last)
    (callback : (system.watchers id).callback = .onFuture group n) :
    ((system.complete (system.groups group).promise
      (.ok (.futures (system.groups group).futures))).conclude id
        (.returned .void)).Groups := by
  obtain ⟨open_, single, all, filled, ready⟩ :=
    groups.filled refs status callback
  generalize after : (system.complete (system.groups group).promise
    (.ok (.futures (system.groups group).futures))).conclude id
      (.returned .void) = next
  have new_ : next.watchers id = { system.watchers id with
      status := .replied
      outcome := some (.returned .void) } := by
    rw [← after]
    simp [System.conclude, System.complete, System.setWatcher,
      System.setFuture]
  have same : next.groups = system.groups := by
    rw [← after]
    rfl
  have results : ∀ future, (next.futures future).result =
      if future = (system.groups group).promise then
        some (.ok (.futures (system.groups group).futures))
      else (system.futures future).result := by
    intro future
    rw [← after]
    simp only [System.conclude, System.complete, System.setWatcher,
      System.setFuture, Function.update_apply]
    split <;> rfl
  have advances : system.Advances id group n next := by
    refine ⟨callback, by rw [new_]; exact ⟨rfl, rfl⟩, ?_, ?_, by rw [same],
      by rw [same], by rw [same], by rw [same], ?_, ?_, ?_⟩
    · intro other different
      rw [← after]
      simp [System.conclude, System.complete, System.setWatcher,
        System.setFuture, different]
    · intro other _
      rw [same]
    · intro future
      rw [← after]
      simp only [System.conclude, System.complete, System.setWatcher,
        System.setFuture, Function.update_apply]
      split
      · next equal => rw [equal]
      · rfl
    · intro future different
      rw [results, if_neg different]
    · intro future done
      rw [results]
      split
      · rfl
      · exact done
  have gathers := advances.gathers groups
  have counted := advances.count groups Status.counted
  have last := advances.count groups Status.isLast
  rw [new_, status] at counted last
  simp only [Status.counted, if_true, add_left_inj] at counted
  simp only [Status.isLast, if_true, Bool.false_eq_true, if_false,
    add_zero] at last
  apply advances.groups_ groups
  apply advances.gathers_of groups
  · rw [same]
  · intro m watcher found done
    rw [same]
    by_cases here : watcher = id
    · subst here
      exact gathers.stored m watcher found (by rw [status]; rfl)
    · rw [advances.others watcher here] at done
      exact gathers.stored m watcher found done
  · rw [same, counted]
    exact gathers.waitCount
  · rw [results, if_pos rfl, counted, all, if_pos rfl]
    simp only [Option.isSome_some, if_true]
    omega
  · intro result done
    rw [results, if_pos rfl] at done
    right
    rw [← Option.some.inj done, filled]
    exact ⟨rfl, ready⟩

end Callbacks

theorem Groups.grouped (groups : system.Groups) (lists : system.Lists)
    {promise : ℕ} {inputs : List ℕ}
    (uncreated : (system.groups id).created = false)
    (free : (system.futures promise).owner = .free)
    (taken : ∀ input ∈ inputs, (system.futures input).owner ≠ .free)
    (small : inputs.length < 2 ^ 31) :
    (if inputs = [] then
        (system.grouped id promise inputs).complete promise (.ok (.futures []))
      else system.grouped id promise inputs).Groups := by
  have counts : toInt (inputs.length : ℤ) = inputs.length :=
    toInt_of_small (by omega) (by omega)
  generalize after : (if inputs = [] then
      (system.grouped id promise inputs).complete promise (.ok (.futures []))
    else system.grouped id promise inputs) = next
  have watchers : next.watchers = system.watchers := by
    rw [← after]
    split <;> rfl
  have new_ : next.groups id =
      { created := true
        promise := promise
        inputs := inputs
        futures := List.replicate inputs.length none
        waitCount := toInt inputs.length } := by
    rw [← after]
    split <;> simp [System.grouped, System.complete, System.setGroup,
      System.setFuture]
  have others : ∀ other, other ≠ id →
      next.groups other = system.groups other := by
    intro other different
    rw [← after]
    split <;> simp [System.grouped, System.complete, System.setGroup,
      System.setFuture, different]
  have made : (next.futures promise).owner = .group id ∧
      (next.futures promise).result =
        if inputs = [] then some (.ok (.futures [])) else none := by
    rw [← after]
    by_cases none_ : inputs = []
    · rw [if_pos none_, if_pos none_]
      simp [System.grouped, System.complete, System.setGroup,
        System.setFuture]
    · rw [if_neg none_, if_neg none_]
      simp [System.grouped, System.setGroup, System.setFuture]
  have kept : ∀ other, (system.futures other).owner ≠ .free →
      next.futures other = system.futures other := by
    intro other owned
    have different : other ≠ promise := by
      rintro rfl
      exact owned free
    rw [← after]
    split <;> simp [System.grouped, System.complete, System.setGroup,
      System.setFuture, different]
  have results : ∀ other, (system.futures other).result.isSome →
      (next.futures other).result.isSome := by
    intro other done
    rw [kept]
    · exact done
    · intro unborn
      rw [lists.free other unborn] at done
      cases done
  constructor
  · intro other created
    by_cases same : other = id
    · subst same
      have early : ∀ stage, next.count stage other = 0 := by
        intro stage
        rw [System.count, new_]
        rfl
      constructor
      · rw [new_]
        exact made.1
      · rw [new_]
        simpa only using small
      · rw [new_]
        exact Nat.zero_le _
      · rw [new_]
        exact List.length_replicate
      · intro n watcher found
        rw [new_] at found
        cases found
      · intro n watcher found
        rw [new_] at found
        cases found
      · have waitCount : (next.groups other).waitCount =
            toInt inputs.length := by rw [new_]
        have inputs_ : (next.groups other).inputs = inputs := by rw [new_]
        simp only [waitCount, counts, inputs_, early, Nat.cast_zero, sub_zero]
      · rw [early, early, new_]
        change 0 + (if (next.futures promise).result.isSome then 1 else 0) =
          if 0 = inputs.length then 1 else 0
        rw [made.2]
        cases inputs with
        | nil => rfl
        | cons first rest => simp
      · intro result done
        rw [new_] at done ⊢
        change (next.futures promise).result = some result at done
        rw [made.2] at done
        split at done
        · next none_ =>
            rw [← Option.some.inj done, none_]
            exact ⟨rfl, fun input among => by cases among⟩
        · cases done
    · rw [others other same] at created
      have before := groups.gathers other created
      have promise_ := kept (system.groups other).promise
        (by rw [before.owner]; simp)
      apply before.keeps
      · exact others other same
      · rw [promise_]
      · rw [promise_]
      · exact results
      · intro watcher _
        rw [watchers]
        exact ⟨rfl, rfl, rfl, rfl, rfl⟩
  · intro other uncreated'
    by_cases same : other = id
    · rw [same, new_] at uncreated'
      cases uncreated'
    · rw [others other same] at uncreated' ⊢
      exact groups.uncreated other uncreated'
  · intro other created input among
    by_cases same : other = id
    · rw [same, new_] at among
      have old := taken input among
      rw [kept input old]
      exact old
    · rw [others other same] at created among
      have old := groups.inputs other created input among
      rw [kept input old]
      exact old
  · intro watcher other n callback
    rw [watchers] at callback
    have before := groups.known watcher other n callback
    have different : other ≠ id := by
      rintro rfl
      rw [uncreated] at before
      cases before.1
    rw [others other different]
    exact before

end System

end TarsCpp.Promise
