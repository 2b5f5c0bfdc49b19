import TarsCpp.ConsistentHash.Selecting

/-!
# Runs of selections

A client between its updates and its selections, and inside the loop of a
selection.  From any state that it comes to, the loop has at most one more round
for each entry of `_sortActivProxys`, as long as `getNodeName` does not read
behind the vector.
-/

namespace TarsCpp.ConsistentHash

open TransitionRun EndpointManager

/-- The selection that is in its loop. -/
structure Selection where
  way : Way
  hashCode : UInt32

structure Client where
  manager : EndpointManager
  selecting : Option Selection := none
  /-- What the last selection has returned. -/
  chosen : Option AdapterId := none

inductive Event
  | updateEndpoints (active inactive : List EndpointInfo)
  /-- What is done elsewhere to the flags of changed weights. -/
  | reflag (flags : AdapterId → Bool)
  | enter (way : Way) (hashCode : UInt32)
  | round (outcome : Outcome)
  | fallBack (answers : Answers)

inductive Step (md5bin : Digest) : Client → Event → Client → Prop
  | updateEndpoints {m chosen active inactive} :
      Step md5bin ⟨m, none, chosen⟩ (.updateEndpoints active inactive)
        ⟨m.updateEndpoints active inactive, none, chosen⟩
  | reflag {m : EndpointManager} {chosen flags} :
      Step md5bin ⟨m, none, chosen⟩ (.reflag flags)
        ⟨{ m with adapters := fun id =>
            { m.adapters id with staticWeightChanged := flags id } },
          none, chosen⟩
  | noProxys {m chosen way hashCode} (nothing : m.vRegProxys = []) :
      Step md5bin ⟨m, none, chosen⟩ (.enter way hashCode) ⟨m, none, none⟩
  | enter {m chosen way hashCode} (something : m.vRegProxys ≠ []) :
      Step md5bin ⟨m, none, chosen⟩ (.enter way hashCode)
        ⟨m.refresh md5bin way, some ⟨way, hashCode⟩, chosen⟩
  | returns {m m' : EndpointManager} {selection chosen outcome proxy}
      (something : (m.ring selection.way).vHashList ≠ [])
      (run : m.round md5bin selection.way selection.hashCode outcome =
        (.returns proxy, m')) :
      Step md5bin ⟨m, some selection, chosen⟩ (.round outcome)
        ⟨m', none, proxy⟩
  | again {m m' : EndpointManager} {selection chosen outcome}
      (something : (m.ring selection.way).vHashList ≠ [])
      (run : m.round md5bin selection.way selection.hashCode outcome =
        (.again, m')) :
      Step md5bin ⟨m, some selection, chosen⟩ (.round outcome)
        ⟨m', some selection, chosen⟩
  | fallBack {m selection chosen answers}
      (nothing : (m.ring selection.way).vHashList = []) :
      Step md5bin ⟨m, some selection, chosen⟩ (.fallBack answers)
        ⟨m, none, m.getHashProxyForNormal selection.hashCode answers⟩

/-- A round looks the hash code up inside the vector. -/
def LooksInside (client : Client) : Event → Prop
  | .round _ => ∀ selection, client.selecting = some selection →
      ((client.manager.ring selection.way).getNodeName
        selection.hashCode).isSome
  | _ => True

/-- The state between steps, and inside the loop the ring with it. -/
structure Sound (client : Client) : Prop where
  consistent : client.manager.Consistent
  fits : ∀ selection, client.selecting = some selection →
    Fits selection.way client.manager

section Runs

variable {md5bin : Digest} {client next : Client} {event : Event}

theorem Step.sound (sound : Sound client)
    (step : Guarded LooksInside (Step md5bin) client event next) :
    Sound next := by
  obtain ⟨inside, step⟩ := step
  cases step with
  | updateEndpoints =>
      exact ⟨updateEndpoints_consistent sound.consistent _ _,
        fun _ absent => by cases absent⟩
  | reflag =>
      refine ⟨?_, fun _ absent => by cases absent⟩
      apply sound.consistent.reflagged
      exact ⟨rfl, fun _ => rfl⟩
  | noProxys nothing =>
      exact ⟨sound.consistent, fun _ absent => by cases absent⟩
  | enter something =>
      obtain ⟨consistent, fits⟩ := refresh_fits md5bin _ sound.consistent
      refine ⟨consistent, ?_⟩
      intro selection same
      cases same
      exact fits
  | @returns m m' selection chosen outcome proxy something run =>
      have advanced := round_advanced md5bin sound.consistent
        (sound.fits selection rfl) something (inside selection rfl) outcome
      rw [run] at advanced
      exact ⟨advanced.consistent, fun _ absent => by cases absent⟩
  | @again m m' selection chosen outcome something run =>
      have advanced := round_advanced md5bin sound.consistent
        (sound.fits selection rfl) something (inside selection rfl) outcome
      rw [run] at advanced
      refine ⟨advanced.consistent, ?_⟩
      intro selection same
      cases same
      exact advanced.fits
  | fallBack nothing =>
      exact ⟨sound.consistent, fun _ absent => by cases absent⟩

/-- A ring with something on it has a host that can be put out. -/
theorem entries_pos {m : EndpointManager} {way : Way} (fits : Fits way m)
    (something : (m.ring way).vHashList ≠ []) :
    0 < m.sortActivProxys.entries.length := by
  obtain ⟨item, items, ring⟩ := List.exists_cons_of_ne_nil something
  have named : item.sNode ∈ (m.ring way).names := by
    rw [TcConsistentHashNew.names, ring]
    exact List.mem_cons_self
  obtain ⟨entry, among, _⟩ := List.mem_map.mp (fits named)
  exact List.length_pos_of_mem among

/-- At most one more round for each entry. -/
theorem length_rounds (sound : Sound client) {outcomes : List Outcome}
    (run : Run (Guarded LooksInside (Step md5bin)) client
      (outcomes.map .round) next) :
    outcomes.length ≤ client.manager.sortActivProxys.entries.length := by
  induction outcomes generalizing client with
  | nil => exact Nat.zero_le _
  | cons outcome outcomes induction =>
      cases run with
      | cons taken later =>
          have later' := induction (Step.sound sound taken) later
          obtain ⟨inside, step⟩ := taken
          cases step with
          | @returns m m' selection chosen outcome proxy something run =>
              have positive := entries_pos (sound.fits selection rfl) something
              cases outcomes with
              | nil => exact positive
              | cons outcome outcomes =>
                  cases later with
                  | cons taken _ => cases taken.2
          | @again m m' selection chosen outcome something run =>
              have advanced := round_advanced md5bin sound.consistent
                (sound.fits selection rfl) something (inside selection rfl)
                outcome
              rw [run] at advanced
              have fewer := advanced.fewer rfl
              rw [List.length_cons]
              exact Nat.succ_le_of_lt (Nat.lt_of_le_of_lt later' fewer)

/-- Inside the loop there is always a next step. -/
structure Proceeds (md5bin : Digest) (client : Client)
    (selection : Selection) : Prop where
  leaves : (client.manager.ring selection.way).vHashList = [] →
    ∀ answers, ∃ next, Step md5bin client (.fallBack answers) next ∧
      next.selecting = none
  round : (client.manager.ring selection.way).vHashList ≠ [] →
    ∀ outcome, ∃ next, Step md5bin client (.round outcome) next

theorem proceeds (md5bin : Digest) {client : Client} {selection : Selection}
    (selecting : client.selecting = some selection) :
    Proceeds md5bin client selection := by
  obtain ⟨m, _, chosen⟩ := client
  cases selecting
  constructor
  · intro nothing answers
    exact ⟨_, .fallBack nothing, rfl⟩
  · intro something outcome
    cases run : m.round md5bin selection.way selection.hashCode outcome with
    | mk progress m' =>
        cases progress with
        | returns proxy => exact ⟨_, .returns something run⟩
        | again => exact ⟨_, .again something run⟩

/-- A manager as its constructor leaves it. -/
def constructed (direct staticWeight : Bool)
    (adapters : AdapterId → AdapterProxy) : Client :=
  ⟨{ direct, staticWeight, adapters }, none, none⟩

theorem constructed_sound (direct staticWeight : Bool)
    (adapters : AdapterId → AdapterProxy) :
    Sound (constructed direct staticWeight adapters) := by
  refine ⟨⟨?_, ?_, ?_, ?_, ?_⟩, fun _ absent => by cases absent⟩
  · intro entry among
    cases among
  · intro entry among
    cases among
  · intro entry among
    cases among
  · exact List.nil_subset _
  · intro way
    cases way <;> exact List.nil_subset _

/-- In every state that is reached, all hosts of `_sortActivProxys` are in
`_indexActiveProxys`, and the loop has at most as many rounds left as there are
of them; it can go on until it is left. -/
theorem selection_ends {direct staticWeight : Bool}
    {adapters : AdapterId → AdapterProxy} {events : List Event}
    (run : Run (Guarded LooksInside (Step md5bin))
      (constructed direct staticWeight adapters) events client) :
    client.manager.sortActivProxys.keys ⊆
        client.manager.indexActiveProxys.keys ∧
      (∀ (outcomes : List Outcome) next,
        Run (Guarded LooksInside (Step md5bin)) client
          (outcomes.map .round) next →
        outcomes.length ≤ client.manager.sortActivProxys.entries.length) ∧
      ∀ selection, client.selecting = some selection →
        Proceeds md5bin client selection := by
  have sound : Sound client :=
    @Run.preserves _ _ _ Sound Step.sound _ _ _ run
      (constructed_sound direct staticWeight adapters)
  refine ⟨sound.consistent.subset, ?_, ?_⟩
  · intro outcomes next rounds
    exact length_rounds sound rounds
  · intro selection selecting
    exact proceeds md5bin selecting

end Runs

/-- A manager with static weights. -/
private def weighted : Client :=
  constructed false true fun _ => ⟨⟨[], [], 0⟩, 0, false⟩

/-- The host `a` has the weight 4, and its ring one virtual node. -/
private def oneHost : EndpointManager :=
  (weighted.manager.updateEndpoints [⟨[97], [97], 4⟩] []).refresh Sample.md5bin
    (.weight true)

private def selects (hashCode : UInt32) : List Event :=
  [.updateEndpoints [⟨[97], [97], 4⟩] [], .enter (.weight true) hashCode]

private theorem selects_run (hashCode : UInt32) :
    Run (Guarded LooksInside (Step Sample.md5bin)) weighted (selects hashCode)
      ⟨oneHost, some ⟨.weight true, hashCode⟩, none⟩ := by
  refine .cons ⟨trivial, .updateEndpoints⟩ (.cons ⟨trivial, .enter ?_⟩ (.nil _))
  decide

private theorem ring_oneHost : (oneHost.ring (.weight true)).vHashList =
    [⟨776549371, [97], 0⟩, ⟨1608804089, [97], 0⟩, ⟨3077935722, [97], 0⟩,
      ⟨4287466549, [97], 0⟩] := rfl

/-- Between two codes: one round is left, and it can be made. -/
theorem selection_ends_between :
    (∀ (outcomes : List Outcome) next,
      Run (Guarded LooksInside (Step Sample.md5bin))
        ⟨oneHost, some ⟨.weight true, 1000000000⟩, none⟩
        (outcomes.map .round) next →
      outcomes.length ≤ 1) ∧
    Proceeds Sample.md5bin ⟨oneHost, some ⟨.weight true, 1000000000⟩, none⟩
      ⟨.weight true, 1000000000⟩ := by
  obtain ⟨_, rounds, proceeds⟩ := selection_ends (selects_run 1000000000)
  exact ⟨rounds, proceeds _ rfl⟩

private theorem round_oneHost : oneHost.round Sample.md5bin (.weight true)
    4287466549 ⟨true, true, true, []⟩ = (.again, oneHost) := by
  have overruns :
      (oneHost.ring (.weight true)).getNodeName 4287466549 = none := by
    rw [TcConsistentHashNew.getNodeName, ring_oneHost]
    simp [locate, search]
  have rebuilt : oneHost.updateConHashProxyWeighted Sample.md5bin
      (.weight true) = oneHost.change 0 (oneHost.adapters 0) := rfl
  have name : oneHost.nodeName (.weight true) 4287466549
      ⟨true, true, true, []⟩ = [] := by
    rw [nodeName, overruns]
  have absent : oneHost.indexActiveProxys.find? [] = none := rfl
  unfold EndpointManager.round
  dsimp only
  rw [name, absent, rebuilt, change, Function.update_eq_self]

/-- The greatest code of the ring is looked up behind the vector.  Where an
empty name is found there, one round follows the other without an end, with one
entry in the map. -/
theorem selection_endless :
    oneHost.sortActivProxys.entries.length = 1 ∧
      ∀ n, Run (Step Sample.md5bin) weighted
        (selects 4287466549 ++
          List.replicate n (.round ⟨true, true, true, []⟩))
        ⟨oneHost, some ⟨.weight true, 4287466549⟩, none⟩ := by
  refine ⟨rfl, ?_⟩
  intro n
  have entered : Run (Step Sample.md5bin) weighted (selects 4287466549)
      ⟨oneHost, some ⟨.weight true, 4287466549⟩, none⟩ := by
    refine .cons .updateEndpoints (.cons (.enter ?_) (.nil _))
    decide
  apply entered.append
  induction n with
  | zero => exact .nil _
  | succ n induction =>
      have something : (oneHost.ring (.weight true)).vHashList ≠ [] := by
        rw [ring_oneHost]
        exact List.cons_ne_nil _ _
      exact .cons (.again something round_oneHost) induction

end TarsCpp.ConsistentHash
