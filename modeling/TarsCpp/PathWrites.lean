import Mathlib.Tactic

/-!
# Writes to a tree of paths

A tree as what stands at each path: a branch, a leaf or nothing.  A write puts
a leaf at a path, and branches above it.  Writing all the leaves of one tree
into another one overrides it, unless a leaf is in the way or a branch without
leaves is missing.
-/

namespace TarsCpp.PathWrites

variable {κ α : Type}

inductive Spot (α : Type)
  | branch
  | leaf (value : α)

abbrev View (κ α : Type) := List κ → Option (Spot α)

/-- Above everything that is there stand branches. -/
def View.Tree (view : View κ α) : Prop :=
  ∀ path below, path <+: below → path ≠ below → view below ≠ none →
    view path = some .branch

def Apart (path other : List κ) : Prop :=
  ¬ path <+: other ∧ ¬ other <+: path

theorem View.Tree.apart {view : View κ α} (tree : view.Tree)
    {path other : List κ} {value value' : α}
    (here : view path = some (.leaf value))
    (there : view other = some (.leaf value')) (differ : path ≠ other) :
    Apart path other := by
  constructor
  · intro above
    have branch := tree path other above differ (by rw [there]; simp)
    rw [here] at branch
    cases branch
  · intro above
    have branch := tree other path above differ.symm (by rw [here]; simp)
    rw [there] at branch
    cases branch

section Writes

variable {view : View κ α} {path other : List κ} {value : α}

open Classical in
noncomputable def View.write (view : View κ α) (path : List κ) (value : α) :
    View κ α := fun spot =>
  if spot = path then some (.leaf value)
  else if path <+: spot then none
  else if spot <+: path then some .branch
  else view spot

/-- No leaf stands above the path. -/
def View.Free (view : View κ α) (path : List κ) : Prop :=
  ∀ above, above <+: path → above ≠ path → ∀ value,
    view above ≠ some (.leaf value)

theorem write_same : view.write path value path = some (.leaf value) :=
  if_pos rfl

theorem write_below (below : path <+: other) (differ : other ≠ path) :
    view.write path value other = none := by
  rw [View.write, if_neg differ, if_pos below]

theorem write_above (above : other <+: path) (differ : other ≠ path) :
    view.write path value other = some .branch := by
  have shorter : ¬ path <+: other := fun below =>
    differ (above.eq_of_length_le below.length_le)
  rw [View.write, if_neg differ, if_neg shorter, if_pos above]

theorem write_apart (apart : Apart path other) :
    view.write path value other = view other := by
  have differ : other ≠ path := by
    rintro rfl
    exact apart.1 (List.prefix_refl _)
  rw [View.write, if_neg differ, if_neg apart.1, if_neg apart.2]

/-- A write that goes through is in the way of no other path. -/
theorem free_write_iff (free : view.Free path) (apart : Apart path other) :
    (view.write path value).Free other ↔ view.Free other := by
  refine forall_congr' fun above => ?_
  refine imp_congr_right fun inside => imp_congr_right fun differ => ?_
  refine forall_congr' fun value' => not_congr ?_
  have notBelow : ¬ path <+: above := fun below =>
    apart.1 (below.trans inside)
  by_cases shared : above <+: path
  · have other' : above ≠ path := by
      rintro rfl
      exact notBelow (List.prefix_refl _)
    rw [write_above shared other']
    constructor
    · intro same
      cases same
    · intro leaf
      exact absurd leaf (free above shared other' value')
  · rw [write_apart ⟨notBelow, shared⟩]

/-- The part of the tree under a key. -/
def View.under (view : View κ α) (key : κ) : View κ α :=
  fun below => view (key :: below)

theorem write_under (view : View κ α) (key : κ) (path : List κ) (value : α) :
    (view.write (key :: path) value).under key =
      (view.under key).write path value := by
  funext below
  have cons : ∀ path below : List κ,
      key :: path <+: key :: below ↔ path <+: below := fun path below =>
    List.cons_prefix_cons.trans (and_iff_right rfl)
  rw [View.under]
  by_cases same : below = path
  · rw [same, write_same, write_same]
  · have differ : key :: below ≠ key :: path :=
      fun equal => same (List.cons.inj equal).2
    by_cases down : path <+: below
    · rw [write_below down same, write_below ((cons _ _).mpr down) differ]
    · by_cases up : below <+: path
      · rw [write_above up same, write_above ((cons _ _).mpr up) differ]
      · rw [write_apart ⟨down, up⟩, write_apart
          ⟨fun h => down ((cons _ _).mp h), fun h => up ((cons _ _).mp h)⟩]
        rfl

/-- A write below the root does not depend on the root. -/
theorem write_congr {view view' : View κ α} (nonempty : path ≠ [])
    (same : ∀ spot, spot ≠ [] → view spot = view' spot) :
    view.write path value = view'.write path value := by
  funext spot
  by_cases root : spot = []
  · subst root
    rw [write_above List.nil_prefix nonempty.symm,
      write_above List.nil_prefix nonempty.symm]
  · rw [View.write, View.write, same spot root]

theorem free_cons_iff {key : κ} : view.Free (key :: path) ↔
    (∀ value, view [] ≠ some (.leaf value)) ∧ (view.under key).Free path := by
  constructor
  · intro free
    refine ⟨free [] List.nil_prefix (List.cons_ne_nil _ _).symm, ?_⟩
    intro above inside differ
    exact free (key :: above) (List.cons_prefix_cons.mpr ⟨rfl, inside⟩)
      fun same => differ (List.cons.inj same).2
  · rintro ⟨root, free⟩ above inside differ
    cases above with
    | nil => exact root
    | cons first above =>
        obtain ⟨rfl, inside'⟩ := List.cons_prefix_cons.mp inside
        exact free above inside' fun same => differ (congrArg _ same)

end Writes

abbrev Write (κ α : Type) := List κ × α

noncomputable def View.writeAll (view : View κ α) (writes : List (Write κ α)) :
    View κ α :=
  writes.foldl (fun view write => view.write write.1 write.2) view

/-- None of the writes meets a leaf above its path. -/
def Passes : View κ α → List (Write κ α) → Prop
  | _, [] => True
  | view, write :: writes =>
      view.Free write.1 ∧ Passes (view.write write.1 write.2) writes

section Lists

variable {view : View κ α} {writes : List (Write κ α)} {path : List κ}

theorem writeAll_cons (view : View κ α) (write : Write κ α)
    (writes : List (Write κ α)) :
    view.writeAll (write :: writes) =
      (view.write write.1 write.2).writeAll writes :=
  rfl

theorem writeAll_append (view : View κ α) (writes writes' : List (Write κ α)) :
    view.writeAll (writes ++ writes') =
      (view.writeAll writes).writeAll writes' :=
  List.foldl_append

theorem passes_append {writes' : List (Write κ α)} :
    Passes view (writes ++ writes') ↔
      Passes view writes ∧ Passes (view.writeAll writes) writes' := by
  induction writes generalizing view with
  | nil => exact (and_iff_right trivial).symm
  | cons write writes ih =>
      rw [List.cons_append, Passes, Passes, ih, and_assoc]
      rfl

theorem passes_iff (apart : writes.Pairwise fun write write' =>
      Apart write.1 write'.1) :
    Passes view writes ↔ ∀ write ∈ writes, view.Free write.1 := by
  induction writes generalizing view with
  | nil => simp [Passes]
  | cons write writes ih =>
      obtain ⟨first, rest⟩ := List.pairwise_cons.mp apart
      rw [Passes, List.forall_mem_cons, ih rest]
      refine and_congr_right fun free => ?_
      refine forall₂_congr fun write' member => ?_
      exact free_write_iff free (first write' member)

theorem writeAll_apart (view : View κ α)
    (apart : ∀ write ∈ writes, Apart write.1 path) :
    view.writeAll writes path = view path := by
  induction writes generalizing view with
  | nil => rfl
  | cons write writes ih =>
      obtain ⟨first, rest⟩ := List.forall_mem_cons.mp apart
      have step := ih (view.write write.1 write.2) rest
      rw [write_apart first] at step
      exact step

/-- What stands at or below a path that is written, and above it. -/
theorem writeAll_of_mem (view : View κ α)
    (apart : writes.Pairwise fun write write' => Apart write.1 write'.1)
    {write : Write κ α} (member : write ∈ writes) :
    (write.1 <+: path →
      view.writeAll writes path = view.write write.1 write.2 path) ∧
    (path <+: write.1 → path ≠ write.1 →
      view.writeAll writes path = some .branch) := by
  induction writes generalizing view write with
  | nil => exact absurd member List.not_mem_nil
  | cons first writes ih =>
      obtain ⟨others, rest⟩ := List.pairwise_cons.mp apart
      rcases List.mem_cons.mp member with rfl | member
      · constructor
        · intro below
          refine writeAll_apart (view.write write.1 write.2)
            fun write' inside => ?_
          have apart' := others write' inside
          constructor
          · intro below'
            rcases List.prefix_or_prefix_of_prefix below below' with up | down
            · exact apart'.1 up
            · exact apart'.2 down
          · intro above
            exact apart'.1 (below.trans above)
        · intro above differ
          by_cases further : ∃ write' ∈ writes, path <+: write'.1
          · obtain ⟨write', inside, above'⟩ := further
            have differ' : path ≠ write'.1 := by
              rintro rfl
              exact (others write' inside).2 above
            exact (ih (view.write write.1 write.2) rest inside).2 above'
              differ'
          · have stays := writeAll_apart (view.write write.1 write.2)
              fun write' inside =>
                ⟨fun below => (others write' inside).2 (below.trans above),
                  fun above' => further ⟨write', inside, above'⟩⟩
            rw [write_above above differ] at stays
            exact stays
      · have later := ih (view.write first.1 first.2) rest member
        have apart' := others write member
        refine ⟨fun below => ?_, later.2⟩
        refine (later.1 below).trans ?_
        by_cases same : path = write.1
        · rw [same, write_same, write_same]
        · rw [write_below below same, write_below below same]

/-- A leaf is written, or it was there before. -/
theorem leaf_of_writeAll (view : View κ α) {value : α}
    (leaf : view.writeAll writes path = some (.leaf value)) :
    (∃ write ∈ writes, write.1 = path) ∨ view path = some (.leaf value) := by
  induction writes generalizing view with
  | nil => exact Or.inr leaf
  | cons write writes ih =>
      rcases ih (view.write write.1 write.2) leaf with
        ⟨write', inside, same⟩ | before
      · exact Or.inl ⟨write', List.mem_cons_of_mem _ inside, same⟩
      · by_cases same : write.1 = path
        · exact Or.inl ⟨write, List.mem_cons_self, same⟩
        · rw [View.write, if_neg (Ne.symm same)] at before
          split at before
          · cases before
          · split at before
            · cases before
            · exact Or.inr before

end Lists

open Classical in
/-- What stands in `high`, and elsewhere what stands in `low`, but nothing
behind a leaf of `high`. -/
noncomputable def merged (low high : View κ α) : View κ α := fun path =>
  match high path with
  | some spot => some spot
  | none =>
      if ∃ above value, above <+: path ∧ high above = some (.leaf value) then
        none
      else low path

/-- A leaf of the tree stands at the path or below it. -/
def View.Bears (view : View κ α) (path : List κ) : Prop :=
  ∃ below value, path <+: below ∧ view below = some (.leaf value)

/-- No leaf of `low` stands where `high` branches to a leaf, and a branch of
`high` without leaves is one of `low`. -/
structure Compatible (low high : View κ α) : Prop where
  room : ∀ path, high path = some .branch → high.Bears path →
    ∀ value, low path ≠ some (.leaf value)
  bare : ∀ path, high path = some .branch → ¬ high.Bears path →
    low path = some .branch

/-- The writes are the leaves of the tree, each of them once. -/
structure Lists (writes : List (Write κ α)) (high : View κ α) : Prop where
  leaves : ∀ path value,
    (path, value) ∈ writes ↔ high path = some (.leaf value)
  once : (writes.map Prod.fst).Nodup

section Override

variable {low high : View κ α} {writes : List (Write κ α)}

theorem Lists.apart (tree : high.Tree) (lists : Lists writes high) :
    writes.Pairwise fun write write' => Apart write.1 write'.1 := by
  have distinct := List.pairwise_map.mp lists.once
  refine distinct.imp_of_mem fun {write write'} member member' differ => ?_
  exact tree.apart ((lists.leaves write.1 write.2).mp member)
    ((lists.leaves write'.1 write'.2).mp member') differ

theorem merged_of_some {path : List κ} {spot : Spot α}
    (here : high path = some spot) : merged low high path = some spot := by
  rw [merged, here]

theorem of_merged {path : List κ} {spot : Spot α}
    (here : merged low high path = some spot) :
    low path = some spot ∨ high path = some spot := by
  rw [merged] at here
  cases upper : high path with
  | some _ =>
      rw [upper] at here
      exact .inr here
  | none =>
      rw [upper] at here
      dsimp only at here
      split at here
      · cases here
      · exact .inl here

/-- The leaves of a tree override another one exactly when both are
compatible. -/
theorem compatible_iff (tree : high.Tree) (lists : Lists writes high) :
    Compatible low high ↔
      Passes low writes ∧ low.writeAll writes = merged low high := by
  have apart := lists.apart tree
  have bears : ∀ {path : List κ}, high path = some .branch →
      (high.Bears path ↔ ∃ write ∈ writes, path <+: write.1) := by
    intro path branch
    constructor
    · rintro ⟨below, value, above, leaf⟩
      exact ⟨(below, value), (lists.leaves below value).mpr leaf, above⟩
    · rintro ⟨write, member, above⟩
      exact ⟨write.1, write.2, above, (lists.leaves _ _).mp member⟩
  have properly : ∀ {path : List κ} {write : Write κ α},
      high path = some .branch → write ∈ writes → path ≠ write.1 := by
    rintro path write branch member rfl
    have leaf := (lists.leaves write.1 write.2).mp member
    rw [branch] at leaf
    cases leaf
  rw [passes_iff apart]
  constructor
  · rintro ⟨room, bare⟩
    constructor
    · intro write member above inside differ
      have leaf := (lists.leaves write.1 write.2).mp member
      have branch := tree above write.1 inside differ (by rw [leaf]; simp)
      exact room above branch ((bears branch).mpr ⟨write, member, inside⟩)
    · funext path
      cases here : high path with
      | some spot =>
          rw [merged_of_some here]
          cases spot with
          | leaf value =>
              have member := (lists.leaves path value).mpr here
              rw [(writeAll_of_mem low apart member).1 (List.prefix_refl _)]
              exact write_same
          | branch =>
              by_cases some : high.Bears path
              · obtain ⟨write, member, above⟩ := (bears here).mp some
                exact (writeAll_of_mem low apart member).2 above
                  (properly here member)
              · refine (writeAll_apart low fun write member => ?_).trans
                  (bare path here some)
                constructor
                · intro below
                  have branch := tree write.1 path below
                    (properly here member).symm (by rw [here]; simp)
                  have leaf := (lists.leaves write.1 write.2).mp member
                  rw [branch] at leaf
                  cases leaf
                · intro above
                  exact some ((bears here).mpr ⟨write, member, above⟩)
      | none =>
          rw [merged, here]
          dsimp only
          split
          · next behind =>
              obtain ⟨above, value, inside, leaf⟩ := behind
              have member := (lists.leaves above value).mpr leaf
              rw [(writeAll_of_mem low apart member).1 inside]
              refine write_below inside ?_
              rintro rfl
              rw [here] at leaf
              cases leaf
          · next free =>
              refine writeAll_apart low fun write member => ?_
              have leaf := (lists.leaves write.1 write.2).mp member
              refine ⟨fun below => free ⟨_, _, below, leaf⟩, fun above => ?_⟩
              have differ : path ≠ write.1 := by
                rintro rfl
                rw [here] at leaf
                cases leaf
              have branch := tree path write.1 above differ
                (by rw [leaf]; simp)
              rw [here] at branch
              cases branch
  · rintro ⟨free, same⟩
    constructor
    · intro path branch some
      obtain ⟨write, member, above⟩ := (bears branch).mp some
      exact free write member path above (properly branch member)
    · intro path branch none
      have stays : low.writeAll writes path = low path := by
        refine writeAll_apart low fun write member => ⟨fun below => ?_,
          fun above => none ((bears branch).mpr ⟨write, member, above⟩)⟩
        have branch' := tree write.1 path below
          (properly branch member).symm (by rw [branch]; simp)
        have leaf := (lists.leaves write.1 write.2).mp member
        rw [branch'] at leaf
        cases leaf
      rw [← stays, same, merged_of_some branch]

end Override

end TarsCpp.PathWrites
