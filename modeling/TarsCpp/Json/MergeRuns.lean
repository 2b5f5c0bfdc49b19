import TarsCpp.Json.MergeObj
import TarsCpp.Json.WriteBack

/-!
# Merged objects

`mergeJson` makes the writes of the walk one after another.  Where they are
the leaves of the upper object at their own paths, the result is its override
of the lower object, if both are compatible; where they are not, some lower
object is merged wrongly.  The result is written, and comes back from its text,
if it has no `null` and neither its strings nor its numbers are cut.
-/

namespace TarsCpp.Json

open PathWrites
open CString (ascii)

variable {double : Type}

section Leaf

variable {key : FieldName} {path : List FieldName} {leaf : JsonValuePtr double}
  {entries : Entries double}

/-- The view with another value at one key. -/
theorem view_assign (child : JsonValuePtr double) (below : List FieldName) :
    (JsonValuePtr.obj (entries.assign key child)).view (key :: below) =
      child.view below :=
  view_found (by rw [Entries.find_assign, if_pos rfl])

theorem view_assign_other {other : FieldName} (differs : other ≠ key)
    (child : JsonValuePtr double) (below : List FieldName) :
    (JsonValuePtr.obj (entries.assign key child)).view (other :: below) =
      (JsonValuePtr.obj entries).view (other :: below) := by
  rw [view_obj_cons, view_obj_cons, Entries.find_assign, if_neg differs]

/-- A write below a key, when it is one of the new value. -/
theorem view_write_assign {child : JsonValuePtr double}
    (same : child.view =
      ((JsonValuePtr.obj entries).view.under key).write path leaf) :
    (JsonValuePtr.obj (entries.assign key child)).view =
      (JsonValuePtr.obj entries).view.write (key :: path) leaf := by
  funext place
  cases place with
  | nil =>
      rw [write_above List.nil_prefix (List.cons_ne_nil _ _).symm,
        view_obj_nil]
  | cons other below =>
      by_cases here : other = key
      · subst here
        rw [view_assign, same, ← write_under]
        rfl
      · rw [view_assign_other here, write_apart]
        exact ⟨fun inside => here (List.cons_prefix_cons.mp inside).1.symm,
          fun inside => here (List.cons_prefix_cons.mp inside).1⟩

/-- The object that the loop goes down to. -/
def below (key : FieldName) (entries : Entries double) : JsonValuePtr double :=
  (Entries.find key entries).getD (.obj [])

theorem writeLeaf_cons {next : FieldName} {rest : List FieldName} :
    writeLeaf leaf (key :: next :: rest) (.obj entries) =
      (writeLeaf leaf (next :: rest) (below key entries)).map
        fun tmp => .obj (entries.assign key tmp) := by
  rw [writeLeaf, below]
  · cases writeLeaf leaf (next :: rest)
      ((Entries.find key entries).getD (.obj [])) with
    | none => rfl
    | some _ => rfl
  · nofun

theorem writeLeaf_isLeaf {value : JsonValuePtr double} (isLeaf : IsLeaf value) :
    writeLeaf leaf path value = none := by
  cases value with
  | obj entries => exact absurd rfl (isLeaf entries)
  | nullptr => rw [writeLeaf] <;> nofun
  | string _ => rw [writeLeaf] <;> nofun
  | num _ => rw [writeLeaf] <;> nofun
  | array _ => rw [writeLeaf] <;> nofun
  | boolean _ => rw [writeLeaf] <;> nofun
  | null => rw [writeLeaf] <;> nofun

theorem isLeaf_or_obj (value : JsonValuePtr double) :
    IsLeaf value ∨ ∃ entries, value = .obj entries := by
  cases value with
  | obj entries => exact .inr ⟨entries, rfl⟩
  | nullptr => exact .inl .nullptr
  | string _ => exact .inl (.string _)
  | num _ => exact .inl (.num _)
  | array _ => exact .inl (.array _)
  | boolean _ => exact .inl (.boolean _)
  | null => exact .inl .null

theorem under_found {child : JsonValuePtr double}
    (found : Entries.find key entries = some child) :
    (JsonValuePtr.obj entries).view.under key = child.view :=
  funext fun _ => view_found found

theorem view_empty {spot : List FieldName} (nonempty : spot ≠ []) :
    (JsonValuePtr.obj ([] : Entries double)).view spot = none := by
  obtain ⟨key, rest, rfl⟩ := List.exists_cons_of_ne_nil nonempty
  exact view_missing rfl

/-- What the loop finds or makes is an object, and looks as before but for the
object itself. -/
theorem below_of_free {next : FieldName} {rest : List FieldName}
    (free : (JsonValuePtr.obj entries).view.Free (key :: next :: rest)) :
    ∃ inner, below key entries = .obj inner ∧
      (JsonValuePtr.obj inner).view.Free (next :: rest) ∧
      (JsonValuePtr.obj inner).view.write (next :: rest) leaf =
        ((JsonValuePtr.obj entries).view.under key).write (next :: rest)
          leaf := by
  obtain ⟨_, inside⟩ := free_cons_iff.mp free
  cases found : Entries.find key entries with
  | some child =>
      rw [under_found found] at inside
      rw [below, found, under_found found, Option.getD_some]
      rcases isLeaf_or_obj child with isLeaf | ⟨inner, rfl⟩
      · exact absurd (view_leaf_nil isLeaf)
          ((free_cons_iff.mp inside).1 child)
      · exact ⟨inner, rfl, inside, rfl⟩
  | none =>
      rw [below, found, Option.getD_none]
      refine ⟨[], rfl, ?_, write_congr (List.cons_ne_nil _ _) ?_⟩
      · intro above _ _ value
        by_cases root : above = []
        · rw [root, view_obj_nil]
          nofun
        · rw [view_empty root]
          nofun
      · intro spot nonempty
        rw [view_empty nonempty]
        exact (view_missing found).symm

/-- The leaf is written when no leaf is in the way. -/
theorem writeLeaf_of_free (isLeaf : IsLeaf leaf) (nonempty : path ≠ [])
    (free : (JsonValuePtr.obj entries).view.Free path) :
    ∃ written, writeLeaf leaf path (.obj entries) = some (.obj written) ∧
      (JsonValuePtr.obj written).view =
        (JsonValuePtr.obj entries).view.write path leaf := by
  induction path generalizing entries with
  | nil => exact absurd rfl nonempty
  | cons key path ih =>
      cases path with
      | nil =>
          refine ⟨entries.assign key leaf, rfl, view_write_assign ?_⟩
          funext spot
          cases spot with
          | nil => rw [write_same, view_leaf_nil isLeaf]
          | cons other spot =>
              rw [view_leaf_cons isLeaf,
                write_below List.nil_prefix (List.cons_ne_nil _ _)]
      | cons next rest =>
          obtain ⟨inner, object, free', same⟩ := below_of_free free
          obtain ⟨written, run, view⟩ := ih (List.cons_ne_nil _ _) free'
          refine ⟨entries.assign key (.obj written), ?_,
            view_write_assign (view.trans same)⟩
          rw [writeLeaf_cons, object, run]
          rfl

theorem free_of_writeLeaf {result : JsonValuePtr double}
    (run : writeLeaf leaf path (.obj entries) = some result) :
    (JsonValuePtr.obj entries).view.Free path := by
  induction path generalizing entries result with
  | nil => cases run
  | cons key path ih =>
      refine free_cons_iff.mpr ⟨fun value => by rw [view_obj_nil]; nofun, ?_⟩
      cases path with
      | nil =>
          intro above inside differ
          exact absurd (List.prefix_nil.mp inside) differ
      | cons next rest =>
          rw [writeLeaf_cons] at run
          obtain ⟨tmp, inside, rfl⟩ := Option.map_eq_some_iff.mp run
          cases found : Entries.find key entries with
          | some child =>
              rw [below, found, Option.getD_some] at inside
              rw [under_found found]
              rcases isLeaf_or_obj child with isLeaf | ⟨inner, rfl⟩
              · rw [writeLeaf_isLeaf isLeaf] at inside
                cases inside
              · exact ih inside
          | none =>
              intro above _ _ value
              have missing : (JsonValuePtr.obj entries).view.under key above =
                  none := view_missing found
              rw [missing]
              nofun

end Leaf

section Runs

variable {key : FieldName} {value : JsonValuePtr double} {path : List FieldName}
  {entries target : Entries double}

theorem document_cons (document :
    Document (.obj ((key, value) :: entries) : JsonValuePtr double)) :
    key ∉ entries.keys ∧ Document value ∧
      Document (.obj entries : JsonValuePtr double) := by
  cases document with
  | obj distinct each =>
      obtain ⟨fresh, distinct⟩ := List.nodup_cons.mp distinct
      obtain ⟨first, rest⟩ := List.forall_mem_cons.mp each
      exact ⟨fresh, first, .obj distinct rest⟩

theorem mergeObj_leaf (isLeaf : IsLeaf value) (document : Document value)
    (target : JsonValuePtr double) :
    mergeObj value target path = mergeLeaf value target path := by
  cases document with
  | obj _ _ => exact absurd rfl (isLeaf _)
  | string _ => rw [mergeObj]
  | num _ => rw [mergeObj]
  | array _ => rw [mergeObj]
  | boolean _ => rw [mergeObj]
  | null => rw [mergeObj]

theorem mergeEntries_leaf (isLeaf : IsLeaf value) (document : Document value)
    (target : JsonValuePtr double) :
    mergeEntries ((key, value) :: entries) target path =
      (writeLeaf value (path ++ [key]) target).bind
        fun target => mergeEntries entries target path := by
  rw [mergeEntries, mergeObj_leaf isLeaf document, mergeLeaf]
  cases writeLeaf value (path ++ [key]) target with
  | none => rfl
  | some written =>
      have back : (path ++ [key]).dropLast = path := List.dropLast_concat
      simp [back]

theorem mergeEntries_obj {inner : Entries double}
    (target : JsonValuePtr double) :
    mergeEntries ((key, .obj inner) :: entries) target path =
      (mergeEntries inner target (path ++ [key])).bind
        fun state => mergeEntries entries state.1 state.2 := by
  rw [mergeEntries, mergeObj]
  rfl

/-- The walk makes its writes when none of them meets a leaf. -/
theorem mergeEntries_of_passes (document :
      Document (.obj entries : JsonValuePtr double))
    (passes : Passes (JsonValuePtr.obj target).view (written entries path)) :
    ∃ merged, mergeEntries entries (.obj target) path =
        some (.obj merged, path ++ staysAll entries) ∧
      (JsonValuePtr.obj merged).view =
        (JsonValuePtr.obj target).view.writeAll (written entries path) := by
  induction entries using Entries.induction generalizing target path with
  | nil =>
      refine ⟨target, ?_, ?_⟩
      · rw [mergeEntries, staysAll, List.append_nil]
      · rw [written, walkAll]
        rfl
  | leaf key value entries isLeaf ih =>
      obtain ⟨_, first, rest⟩ := document_cons document
      have shape : written ((key, value) :: entries) path =
          (path ++ [key], value) :: written entries path := by
        rw [written, walkAll_leaf isLeaf, stays_leaf isLeaf, List.append_nil]
        rfl
      rw [shape] at passes ⊢
      obtain ⟨free, passes⟩ := passes
      obtain ⟨middle, run, view⟩ :=
        writeLeaf_of_free isLeaf (by simp) free
      rw [← view] at passes
      obtain ⟨merged, run', view'⟩ := ih rest passes
      refine ⟨merged, ?_, ?_⟩
      · rw [mergeEntries_leaf isLeaf first, run, staysAll, stays_leaf isLeaf]
        exact run'
      · rw [view', writeAll_cons, view]
  | obj key inner entries ih ih' =>
      obtain ⟨_, first, rest⟩ := document_cons document
      have shape : written ((key, .obj inner) :: entries) path =
          written inner (path ++ [key]) ++
            written entries (path ++ stays key (.obj inner)) := walkAll_obj
      rw [shape] at passes ⊢
      obtain ⟨passes, passes'⟩ := passes_append.mp passes
      obtain ⟨middle, run, view⟩ := ih first passes
      rw [← view] at passes'
      obtain ⟨merged, run', view'⟩ := ih' rest passes'
      have whole : path ++ [key] ++ staysAll inner =
          path ++ stays key (.obj inner) := by
        rw [stays, List.append_assoc, List.singleton_append]
      refine ⟨merged, ?_, ?_⟩
      · rw [mergeEntries_obj, run, Option.bind_some, staysAll,
          ← List.append_assoc, ← run', whole]
      · rw [view', writeAll_append, view]

theorem passes_of_mergeEntries (document :
      Document (.obj entries : JsonValuePtr double))
    {result : JsonValuePtr double × List FieldName}
    (run : mergeEntries entries (.obj target) path = some result) :
    Passes (JsonValuePtr.obj target).view (written entries path) := by
  induction entries using Entries.induction generalizing target path result with
  | nil =>
      rw [written, walkAll]
      trivial
  | leaf key value entries isLeaf ih =>
      obtain ⟨_, first, rest⟩ := document_cons document
      rw [mergeEntries_leaf isLeaf first] at run
      obtain ⟨middle, write, run⟩ := Option.bind_eq_some_iff.mp run
      have free := free_of_writeLeaf write
      obtain ⟨written', write', view⟩ :=
        writeLeaf_of_free isLeaf (by simp) free
      rw [write] at write'
      cases write'
      rw [written, walkAll_leaf isLeaf, stays_leaf isLeaf, List.append_nil]
      refine ⟨free, ?_⟩
      rw [← view]
      exact ih rest run
  | obj key inner entries ih ih' =>
      obtain ⟨_, first, rest⟩ := document_cons document
      rw [mergeEntries_obj] at run
      obtain ⟨middle, inside, run⟩ := Option.bind_eq_some_iff.mp run
      have passes := ih first inside
      obtain ⟨merged, inside', view⟩ := mergeEntries_of_passes first passes
      rw [inside] at inside'
      cases inside'
      have shape : written ((key, .obj inner) :: entries) path =
          written inner (path ++ [key]) ++
            written entries (path ++ stays key (.obj inner)) := walkAll_obj
      have whole : path ++ [key] ++ staysAll inner =
          path ++ stays key (.obj inner) := by
        rw [stays, List.append_assoc, List.singleton_append]
      rw [shape]
      refine passes_append.mpr ⟨passes, ?_⟩
      rw [← view, ← whole]
      exact ih' rest run

end Runs

section Leaves

variable {entries : Entries double}

theorem find_eq_none {key : FieldName} (fresh : key ∉ entries.keys) :
    Entries.find key entries = none := by
  induction entries with
  | nil => rfl
  | cons entry entries ih =>
      rw [Entries.keys, List.map_cons, List.mem_cons, not_or] at fresh
      rw [Entries.find, if_neg (Ne.symm fresh.1)]
      exact ih fresh.2

theorem view_fresh {key : FieldName} (fresh : key ∉ entries.keys)
    (path : List FieldName) :
    (JsonValuePtr.obj entries).view (key :: path) = none :=
  view_missing (find_eq_none fresh)

/-- What stands below the first entry, and below the others. -/
theorem view_entry (key : FieldName) (value : JsonValuePtr double)
    (entries : Entries double) (path : List FieldName) :
    (JsonValuePtr.obj ((key, value) :: entries)).view (key :: path) =
      value.view path :=
  view_found (if_pos rfl)

theorem view_others {key other : FieldName} (differ : other ≠ key)
    (value : JsonValuePtr double) (entries : Entries double)
    (path : List FieldName) :
    (JsonValuePtr.obj ((key, value) :: entries)).view (other :: path) =
      (JsonValuePtr.obj entries).view (other :: path) := by
  rw [view_obj_cons, view_obj_cons, Entries.find, if_neg (Ne.symm differ)]

theorem view_leaf_iff {value leaf : JsonValuePtr double}
    (isLeaf : IsLeaf value) {path : List FieldName} :
    value.view path = some (.leaf leaf) ↔ path = [] ∧ value = leaf := by
  cases path with
  | nil =>
      rw [view_leaf_nil isLeaf]
      simp
  | cons key path =>
      rw [view_leaf_cons isLeaf]
      simp

theorem view_cons_iff {key : FieldName} {value leaf : JsonValuePtr double}
    (fresh : key ∉ entries.keys) {place : List FieldName} :
    (JsonValuePtr.obj ((key, value) :: entries)).view place =
        some (.leaf leaf) ↔
      (∃ path, place = key :: path ∧ value.view path = some (.leaf leaf)) ∨
      (JsonValuePtr.obj entries).view place = some (.leaf leaf) := by
  cases place with
  | nil =>
      rw [view_obj_nil, view_obj_nil]
      simp
  | cons other path =>
      by_cases same : other = key
      · subst same
        rw [view_entry, view_fresh fresh]
        simp
      · rw [view_others same]
        simp [same]

theorem mem_leaves_iff (document :
      Document (.obj entries : JsonValuePtr double))
    (path place : List FieldName) (leaf : JsonValuePtr double) :
    (place, leaf) ∈ leaves entries path ↔
      ∃ below, place = path ++ below ∧
        (JsonValuePtr.obj entries).view below = some (.leaf leaf) := by
  induction entries using Entries.induction generalizing path place with
  | nil =>
      rw [leaves, walkAll]
      constructor
      · intro member
        cases member
      · rintro ⟨below, _, here⟩
        by_cases root : below = []
        · rw [root, view_obj_nil] at here
          cases here
        · rw [view_empty root] at here
          cases here
  | leaf key value entries isLeaf ih =>
      obtain ⟨fresh, _, rest⟩ := document_cons document
      have shape : leaves ((key, value) :: entries) path =
          (path ++ [key], value) :: leaves entries (path ++ []) :=
        walkAll_leaf isLeaf
      rw [shape, List.append_nil, List.mem_cons, ih rest]
      simp only [view_cons_iff fresh, view_leaf_iff isLeaf]
      constructor
      · rintro (here | ⟨below, rfl, there⟩)
        · cases here
          exact ⟨[key], rfl, Or.inl ⟨[], rfl, rfl, rfl⟩⟩
        · exact ⟨below, rfl, Or.inr there⟩
      · rintro ⟨below, rfl, ⟨_, rfl, rfl, rfl⟩ | there⟩
        · exact Or.inl rfl
        · exact Or.inr ⟨below, rfl, there⟩
  | obj key inner entries ih ih' =>
      obtain ⟨fresh, first, rest⟩ := document_cons document
      have shape : leaves ((key, .obj inner) :: entries) path =
          leaves inner (path ++ [key]) ++ leaves entries (path ++ []) :=
        walkAll_obj
      rw [shape, List.append_nil, List.mem_append, ih first, ih' rest]
      simp only [view_cons_iff fresh]
      constructor
      · rintro (⟨below, rfl, there⟩ | ⟨below, rfl, there⟩)
        · exact ⟨key :: below, by simp, Or.inl ⟨below, rfl, there⟩⟩
        · exact ⟨below, rfl, Or.inr there⟩
      · rintro ⟨_, rfl, ⟨below, rfl, there⟩ | there⟩
        · exact Or.inl ⟨below, by simp, there⟩
        · exact Or.inr ⟨_, rfl, there⟩

/-- The leaves below one entry stand beside those of the others. -/
theorem not_mem_leaves_of_fresh {key : FieldName} (fresh : key ∉ entries.keys)
    (document : Document (.obj entries : JsonValuePtr double))
    (path below : List FieldName) :
    path ++ key :: below ∉ (leaves entries path).map Prod.fst := by
  intro member
  obtain ⟨⟨place, leaf⟩, inside, same⟩ := List.mem_map.mp member
  obtain ⟨below', rfl, there⟩ :=
    (mem_leaves_iff document path place leaf).mp inside
  have same : below' = key :: below := List.append_cancel_left same
  rw [same, view_fresh fresh] at there
  cases there

theorem nodup_leaves (document :
      Document (.obj entries : JsonValuePtr double)) (path : List FieldName) :
    ((leaves entries path).map Prod.fst).Nodup := by
  induction entries using Entries.induction generalizing path with
  | nil =>
      rw [leaves, walkAll]
      exact List.nodup_nil
  | leaf key value entries isLeaf ih =>
      obtain ⟨fresh, _, rest⟩ := document_cons document
      have shape : leaves ((key, value) :: entries) path =
          (path ++ [key], value) :: leaves entries (path ++ []) :=
        walkAll_leaf isLeaf
      rw [shape, List.append_nil, List.map_cons, List.nodup_cons]
      exact ⟨not_mem_leaves_of_fresh fresh rest path [], ih rest path⟩
  | obj key inner entries ih ih' =>
      obtain ⟨fresh, first, rest⟩ := document_cons document
      have shape : leaves ((key, .obj inner) :: entries) path =
          leaves inner (path ++ [key]) ++ leaves entries (path ++ []) :=
        walkAll_obj
      rw [shape, List.append_nil, List.map_append, List.nodup_append']
      refine ⟨ih first _, ih' rest _, fun place member => ?_⟩
      obtain ⟨⟨_, leaf⟩, inside, rfl⟩ := List.mem_map.mp member
      obtain ⟨below, same, _⟩ := (mem_leaves_iff first _ _ _).mp inside
      rw [same, List.append_assoc, List.singleton_append]
      exact not_mem_leaves_of_fresh fresh rest path below

theorem lists_leaves (document :
      Document (.obj entries : JsonValuePtr double)) :
    Lists (leaves entries []) (JsonValuePtr.obj entries).view where
  leaves := by
    intro path leaf
    rw [mem_leaves_iff document]
    simp
  once := nodup_leaves document []

end Leaves

/-- The objects of an object. -/
def branches : List (FieldName × JsonValuePtr double) →
    List (FieldName × JsonValuePtr double)
  | [] => []
  | (key, .obj inner) :: entries =>
      (key, .obj (branches inner)) :: branches entries
  | _ :: entries => branches entries

section Branches

variable {entries : Entries double}

theorem branches_leaf {key : FieldName} {value : JsonValuePtr double}
    (isLeaf : IsLeaf value) :
    branches ((key, value) :: entries) = branches entries := by
  rw [branches]
  exact fun _ inner same => isLeaf inner (Prod.mk.inj same).2

theorem keys_branches (entries : Entries double) :
    (Entries.keys (branches entries)).Sublist entries.keys := by
  induction entries using Entries.induction with
  | nil => rw [branches]
  | leaf key value entries isLeaf ih =>
      rw [branches_leaf isLeaf]
      exact ih.cons _
  | obj key inner entries _ ih =>
      rw [branches]
      exact ih.cons_cons _

theorem document_branches (document :
      Document (.obj entries : JsonValuePtr double)) :
    Document (.obj (branches entries) : JsonValuePtr double) := by
  induction entries using Entries.induction with
  | nil =>
      rw [branches]
      exact document
  | leaf key value entries isLeaf ih =>
      rw [branches_leaf isLeaf]
      exact ih (document_cons document).2.2
  | obj key inner entries ih ih' =>
      obtain ⟨fresh, first, rest⟩ := document_cons document
      have inside := ih first
      rw [branches]
      cases ih' rest with
      | obj distinct each =>
          refine .obj (List.nodup_cons.mpr ⟨?_, distinct⟩) ?_
          · exact fun member => fresh ((keys_branches entries).subset member)
          · exact List.forall_mem_cons.mpr ⟨inside, each⟩

theorem view_branches (document :
      Document (.obj entries : JsonValuePtr double)) (path : List FieldName) :
    ((JsonValuePtr.obj (branches entries)).view path = none ∨
      (JsonValuePtr.obj (branches entries)).view path = some .branch) ∧
    ((JsonValuePtr.obj (branches entries)).view path = some .branch ↔
      (JsonValuePtr.obj entries).view path = some .branch) := by
  induction entries using Entries.induction generalizing path with
  | nil =>
      rw [branches]
      by_cases root : path = []
      · rw [root, view_obj_nil]
        exact ⟨Or.inr rfl, Iff.rfl⟩
      · rw [view_empty root]
        exact ⟨Or.inl rfl, Iff.rfl⟩
  | leaf key value entries isLeaf ih =>
      obtain ⟨fresh, _, rest⟩ := document_cons document
      rw [branches_leaf isLeaf]
      refine ⟨(ih rest path).1, (ih rest path).2.trans ?_⟩
      cases path with
      | nil => rw [view_obj_nil, view_obj_nil]
      | cons other path =>
          by_cases same : other = key
          · subst same
            rw [view_fresh fresh, view_entry]
            cases path with
            | nil =>
                rw [view_leaf_nil isLeaf]
                simp
            | cons next path => rw [view_leaf_cons isLeaf]
          · rw [view_others same]
  | obj key inner entries ih ih' =>
      obtain ⟨fresh, first, rest⟩ := document_cons document
      rw [branches]
      cases path with
      | nil =>
          rw [view_obj_nil, view_obj_nil]
          exact ⟨Or.inr rfl, Iff.rfl⟩
      | cons other path =>
          by_cases same : other = key
          · subst same
            rw [view_entry, view_entry]
            exact ih first path
          · rw [view_others same, view_others same]
            exact ih' rest _

theorem not_leaf_branches (document :
      Document (.obj entries : JsonValuePtr double)) (path : List FieldName)
    (leaf : JsonValuePtr double) :
    (JsonValuePtr.obj (branches entries)).view path ≠ some (.leaf leaf) := by
  intro here
  rcases (view_branches document path).1 with missing | branch
  · exact nomatch missing.symm.trans here
  · exact nomatch branch.symm.trans here

/-- The objects alone are compatible with the whole. -/
theorem compatible_branches (document :
      Document (.obj entries : JsonValuePtr double)) :
    Compatible (JsonValuePtr.obj (branches entries)).view
      (JsonValuePtr.obj entries).view where
  room := by
    intro path _ _ value
    exact not_leaf_branches document path value
  bare := by
    intro path branch _
    exact (view_branches document path).2.mpr branch

end Branches

section Trees

variable {p : JsonValuePtr double} {low high : Entries double}

theorem mem_of_find {entries : Entries double} {key : FieldName}
    {value : JsonValuePtr double}
    (found : Entries.find key entries = some value) :
    (key, value) ∈ entries := by
  induction entries with
  | nil => cases found
  | cons entry entries ih =>
      rw [Entries.find] at found
      split at found
      · next same =>
          cases found
          rw [← same]
          exact List.mem_cons_self
      · exact List.mem_cons_of_mem _ (ih found)

theorem find_of_mem {entries : Entries double} (distinct : entries.keys.Nodup)
    {entry : FieldName × JsonValuePtr double} (member : entry ∈ entries) :
    Entries.find entry.1 entries = some entry.2 := by
  induction entries with
  | nil => cases member
  | cons first entries ih =>
      obtain ⟨fresh, distinct⟩ := List.nodup_cons.mp distinct
      rw [Entries.find]
      rcases List.mem_cons.mp member with rfl | member
      · exact if_pos rfl
      · rw [if_neg, ih distinct member]
        intro same
        exact fresh (same ▸ List.mem_map_of_mem member)

/-- What stands below an object stands below one of its entries. -/
theorem view_below {entries : Entries double} {key : FieldName}
    {path : List FieldName}
    (some_ : (JsonValuePtr.obj entries).view (key :: path) ≠ none) :
    ∃ child, (key, child) ∈ entries ∧
      (JsonValuePtr.obj entries).view (key :: path) = child.view path := by
  cases found : Entries.find key entries with
  | none => exact absurd (view_missing found) some_
  | some child => exact ⟨child, mem_of_find found, view_found found⟩

theorem document_assign {entries : Entries double} {key : FieldName}
    {value : JsonValuePtr double} (document : Document (.obj entries))
    (child : Document value) : Document (.obj (entries.assign key value)) := by
  cases document with
  | obj distinct each =>
      refine .obj (nodup_assign distinct) fun entry member => ?_
      rcases mem_assign member with same | member
      · exact same ▸ child
      · exact each entry member

theorem document_below {entries : Entries double} (key : FieldName)
    (document : Document (.obj entries)) : Document (below key entries) := by
  rw [below]
  cases found : Entries.find key entries with
  | none => exact .obj List.nodup_nil fun _ member => nomatch member
  | some child =>
      cases document with
      | obj distinct each => exact each _ (mem_of_find found)

theorem document_writeLeaf {leaf target result : JsonValuePtr double}
    {path : List FieldName} (leafDocument : Document leaf)
    (document : Document target)
    (write : writeLeaf leaf path target = some result) : Document result := by
  induction path generalizing target result with
  | nil => cases target <;> cases write
  | cons key path ih =>
      rcases isLeaf_or_obj target with isLeaf | ⟨entries, rfl⟩
      · rw [writeLeaf_isLeaf isLeaf] at write
        cases write
      · cases path with
        | nil =>
            cases write
            exact document_assign document leafDocument
        | cons next rest =>
            rw [writeLeaf_cons] at write
            obtain ⟨tmp, inside, rfl⟩ := Option.map_eq_some_iff.mp write
            exact document_assign document
              (ih (document_below key document) inside)

theorem document_mergeEntries {entries : Entries double}
    {target : JsonValuePtr double} {path : List FieldName}
    {result : JsonValuePtr double × List FieldName}
    (source : Document (.obj entries : JsonValuePtr double))
    (document : Document target)
    (run : mergeEntries entries target path = some result) :
    Document result.1 := by
  induction entries using Entries.induction
    generalizing target path result with
  | nil =>
      rw [mergeEntries] at run
      cases run
      exact document
  | leaf key value entries isLeaf ih =>
      obtain ⟨_, first, rest⟩ := document_cons source
      rw [mergeEntries_leaf isLeaf first] at run
      obtain ⟨middle, write, run⟩ := Option.bind_eq_some_iff.mp run
      exact ih rest (document_writeLeaf first document write) run
  | obj key inner entries ih ih' =>
      obtain ⟨_, first, rest⟩ := document_cons source
      rw [mergeEntries_obj] at run
      obtain ⟨middle, inside, run⟩ := Option.bind_eq_some_iff.mp run
      exact ih' rest (ih first document inside) run

theorem within_leaf_iff {q : JsonValuePtr double} (isLeaf : IsLeaf p) :
    Within q p ↔ ∃ path leaf, p.view path = some (.leaf leaf) ∧
      Within q leaf := by
  simp only [view_leaf_iff isLeaf]
  constructor
  · exact fun inside => ⟨[], p, ⟨rfl, rfl⟩, inside⟩
  · rintro ⟨_, _, ⟨rfl, rfl⟩, inside⟩
    exact inside

/-- Other values than objects stand in the leaves. -/
theorem within_iff {q : JsonValuePtr double} (notObj : IsLeaf q)
    (document : Document p) :
    Within q p ↔ ∃ path leaf, p.view path = some (.leaf leaf) ∧
      Within q leaf := by
  induction document with
  | @obj entries distinct each ih =>
      constructor
      · intro inside
        cases inside with
        | here => exact absurd rfl (notObj entries)
        | @entry _ entry member inside =>
            obtain ⟨path, leaf, view, inside⟩ := (ih entry member).mp inside
            have found := find_of_mem distinct member
            exact ⟨entry.1 :: path, leaf, (view_found found).trans view, inside⟩
      · rintro ⟨path, leaf, view, inside⟩
        cases path with
        | nil =>
            rw [view_obj_nil] at view
            cases view
        | cons key path =>
            obtain ⟨child, member, same⟩ :=
              view_below (ne_of_eq_of_ne view (Option.some_ne_none _))
            rw [same] at view
            exact .entry member ((ih _ member).mpr ⟨path, leaf, view, inside⟩)
  | string value => exact within_leaf_iff (.string value)
  | num value => exact within_leaf_iff (.num value)
  | array each ih => exact within_leaf_iff (.array _)
  | boolean value => exact within_leaf_iff (.boolean value)
  | null => exact within_leaf_iff .null

/-- Keys and strings are short. -/
structure ShortView (view : View FieldName (JsonValuePtr double)) : Prop where
  keys : ∀ path, view path ≠ none → ∀ key ∈ path, ShortRuns key
  strings : ∀ path leaf, view path = some (.leaf leaf) → ShortStrings leaf

theorem shortStrings_of_view (document : Document p)
    (short : ShortView p.view) : ShortStrings p := by
  induction document with
  | @obj entries distinct each ih =>
      have found : ∀ entry ∈ entries, ∀ path,
          (JsonValuePtr.obj entries).view (entry.1 :: path) =
            entry.2.view path := fun entry member path =>
        view_found (find_of_mem distinct member)
      refine .obj (fun entry member => ?_) fun entry member => ih entry member
        ⟨fun path some_ key inside => ?_, fun path leaf view => ?_⟩
      · refine short.keys [entry.1] ?_ entry.1 List.mem_cons_self
        rw [found entry member]
        rcases isLeaf_or_obj entry.2 with isLeaf | ⟨inner, same⟩
        · rw [view_leaf_nil isLeaf]
          exact Option.some_ne_none _
        · rw [same, view_obj_nil]
          exact Option.some_ne_none _
      · refine short.keys (entry.1 :: path) ?_ key
          (List.mem_cons_of_mem _ inside)
        rw [found entry member]
        exact some_
      · exact short.strings (entry.1 :: path) leaf
          ((found entry member path).trans view)
  | string value =>
      exact short.strings [] _ (view_leaf_nil (.string value))
  | num value => exact .num value
  | array each ih => exact short.strings [] _ (view_leaf_nil (.array _))
  | boolean value => exact .boolean value
  | null => exact .null

theorem shortView_of_leaf (isLeaf : IsLeaf p) (short : ShortStrings p) :
    ShortView p.view where
  keys := by
    intro path some_ key inside
    cases path with
    | nil => cases inside
    | cons first path => exact absurd (view_leaf_cons isLeaf) some_
  strings := by
    intro path leaf view
    obtain ⟨-, rfl⟩ := (view_leaf_iff isLeaf).mp view
    exact short

theorem shortView_of_shortStrings (short : ShortStrings p) :
    ShortView p.view := by
  induction short with
  | @obj entries keys each ih =>
      constructor
      · intro path some_ key inside
        cases path with
        | nil => cases inside
        | cons first path =>
            obtain ⟨child, member, same⟩ := view_below some_
            rcases List.mem_cons.mp inside with rfl | inside
            · exact keys _ member
            · exact (ih _ member).keys path (same ▸ some_) key inside
      · intro path leaf view
        cases path with
        | nil =>
            rw [view_obj_nil] at view
            cases view
        | cons first path =>
            obtain ⟨child, member, same⟩ :=
              view_below (ne_of_eq_of_ne view (Option.some_ne_none _))
            exact (ih _ member).strings path leaf (same ▸ view)
  | nullptr => exact shortView_of_leaf .nullptr .nullptr
  | string short => exact shortView_of_leaf (.string _) (.string short)
  | num value => exact shortView_of_leaf (.num value) (.num value)
  | array each ih => exact shortView_of_leaf (.array _) (.array each)
  | boolean value =>
      exact shortView_of_leaf (.boolean value) (.boolean value)
  | null => exact shortView_of_leaf .null .null

end Trees

section Written

variable [FloatingPoint double] {p : JsonValuePtr double}
  {low high : Entries double}

/-- The text of the number is read as the same number, whatever follows it in a
document. -/
def ReadBack (number : JsonValueNum double) : Prop :=
  ∃ head tail, Written (.num number) false head tail

theorem document_written (document : Document p)
    (numbers : ∀ number, Within (.num number) p → ReadBack number)
    (noNull : ¬ Within .null p) : ∃ head tail, Written p false head tail := by
  induction document with
  | string value => exact string_written value
  | num value => exact numbers value .here
  | obj distinct each ih =>
      refine obj_written distinct fun entry member => ih entry member ?_ ?_
      · exact fun number inside => numbers number (.entry member inside)
      · exact fun inside => noNull (.entry member inside)
  | array each ih =>
      refine array_written fun value member => ih value member ?_ ?_
      · exact fun number inside => numbers number (.element member inside)
      · exact fun inside => noNull (.element member inside)
  | boolean value => exact boolean_written value
  | null => exact absurd .here noNull

/-- The result overrides the lower object with the upper one: at every path it
has what the upper one has, or else what the lower one has, but nothing behind
a leaf of the upper one. -/
def Overrides (low high result : JsonValuePtr double) : Prop :=
  result.view = merged low.view high.view

/-- `mergeJson` returns a text, of a tree that overrides the lower object with
the upper one, and the tree is read from the text. -/
def Merges (low high : Entries double) : Prop :=
  ∃ result jsonRet value,
    mergeTrees (.obj low) (.obj high) = .ok result ∧
    Overrides (.obj low) (.obj high) result ∧
    mergeValues (.obj low) (.obj high) = .ok jsonRet ∧
    getValue jsonRet = .ok value ⟨jsonRet, jsonRet.length⟩ ∧ Same result value

/-- What is written and read back: no leaf has a `null`, and strings and keys
are short. -/
structure Writable (view : View FieldName (JsonValuePtr double)) : Prop where
  noNull : ∀ path leaf, view path = some (.leaf leaf) → ¬ Within .null leaf
  short : ShortView view

/-- The text of every number is read as the same number. -/
def Readable (view : View FieldName (JsonValuePtr double)) : Prop :=
  ∀ path leaf, view path = some (.leaf leaf) →
    ∀ number, Within (.num number) leaf → ReadBack number

omit [FloatingPoint double] in
/-- The tree that is written. -/
theorem mergeTrees_eq_ok {result : JsonValuePtr double} :
    mergeTrees (.obj low) (.obj high) = .ok result ↔
      ∃ path, mergeEntries high (.obj low) [] = some (result, path) := by
  rw [mergeTrees, mergeObj]
  cases mergeEntries high (.obj low) [] with
  | none => simp
  | some state => simp [Prod.ext_iff]

omit [FloatingPoint double] in
theorem overrides_iff_passes (document :
      Document (.obj high : JsonValuePtr double)) :
    (∃ result, mergeTrees (.obj low) (.obj high) = .ok result ∧
        Overrides (.obj low) (.obj high) result) ↔
      Passes (JsonValuePtr.obj low).view (written high []) ∧
      (JsonValuePtr.obj low).view.writeAll (written high []) =
        merged (JsonValuePtr.obj low).view (JsonValuePtr.obj high).view := by
  simp only [mergeTrees_eq_ok]
  constructor
  · rintro ⟨result, ⟨path, run⟩, view⟩
    have passes := passes_of_mergeEntries document run
    obtain ⟨merged', run', view'⟩ := mergeEntries_of_passes document passes
    rw [run] at run'
    cases run'
    exact ⟨passes, view'.symm.trans view⟩
  · rintro ⟨passes, same⟩
    obtain ⟨merged', run, view⟩ := mergeEntries_of_passes document passes
    exact ⟨.obj merged', ⟨_, run⟩, view.trans same⟩

omit [FloatingPoint double] in
theorem overrides_iff_compatible (document :
      Document (.obj high : JsonValuePtr double)) (orderly : Orderly high) :
    (∃ result, mergeTrees (.obj low) (.obj high) = .ok result ∧
        Overrides (.obj low) (.obj high) result) ↔
      Compatible (JsonValuePtr.obj low).view (JsonValuePtr.obj high).view := by
  rw [overrides_iff_passes document, written_of_orderly orderly]
  exact (compatible_iff (view_tree _) (lists_leaves document)).symm

omit [FloatingPoint double] in
/-- Where a leaf comes behind an object, even the objects alone are not
overridden. -/
theorem not_overrides_branches (document :
      Document (.obj high : JsonValuePtr double))
    (disorderly : ¬ Orderly high) :
    ¬ ∃ result, mergeTrees (.obj (branches high)) (.obj high) = .ok result ∧
      Overrides (.obj (branches high)) (.obj high) result := by
  rw [overrides_iff_passes document]
  rintro ⟨_, same⟩
  have listed := lists_leaves document
  have among : (leaves high []).map Prod.fst ⊆
      (written high []).map Prod.fst := by
    intro path member
    obtain ⟨⟨place, leaf⟩, inside, rfl⟩ := List.mem_map.mp member
    have here := (listed.leaves place leaf).mp inside
    have made := congrFun same place
    rw [merged_of_some here] at made
    rcases leaf_of_writeAll _ made with ⟨write, inside, stands⟩ | before
    · exact List.mem_map.mpr ⟨write, inside, stands⟩
    · exact absurd before (not_leaf_branches document place leaf)
  have perm := (listed.once.subperm among).perm_of_length_le (by
    rw [List.length_map, List.length_map, length_written high [] []])
  have equal := (perm.map List.length).sum_eq
  rw [List.map_map, List.map_map] at equal
  have strict := total_lt disorderly [] [] (Nat.le_refl _)
  rw [total, total] at strict
  exact absurd equal (Nat.ne_of_lt strict)

theorem mergeValues_written {result : JsonValuePtr double}
    (trees : mergeTrees (.obj low) (.obj high) = .ok result)
    {jsonRet : List UInt8} (wrote : writeValue result false = some jsonRet) :
    mergeValues (.obj low) (.obj high) = .ok jsonRet := by
  rw [mergeValues, trees]
  simp only [bind, Except.bind, wrote]

theorem mergeValues_asserts {result : JsonValuePtr double}
    (trees : mergeTrees (.obj low) (.obj high) = .ok result)
    (fails : writeValue result false = none) :
    mergeValues (.obj low) (.obj high) = .error .assertion := by
  rw [mergeValues, trees]
  simp only [bind, Except.bind, fails]

/-- A tree that overrides is written and read back if it can be. -/
theorem writes_iff {result : JsonValuePtr double} (document : Document result)
    (trees : mergeTrees (.obj low) (.obj high) = .ok result)
    (readable : Readable result.view) :
    (∃ jsonRet value, mergeValues (.obj low) (.obj high) = .ok jsonRet ∧
        getValue jsonRet = .ok value ⟨jsonRet, jsonRet.length⟩ ∧
        Same result value) ↔ Writable result.view := by
  have null_iff := within_iff .null document
  by_cases null : Within .null result
  · refine iff_of_false ?_ fun writable => ?_
    · rintro ⟨jsonRet, _, wrote, _⟩
      rw [mergeValues_asserts trees (writeValue_null null false)] at wrote
      cases wrote
    · obtain ⟨path, leaf, view, inside⟩ := null_iff.mp null
      exact writable.noNull path leaf view inside
  · have numbers : ∀ number, Within (.num number) result →
        ReadBack number := by
      intro number inside
      obtain ⟨path, leaf, view, inside⟩ :=
        (within_iff (.num number) document).mp inside
      exact readable path leaf view number inside
    obtain ⟨head, tail, text⟩ := document_written document numbers null
    obtain ⟨value, read, same⟩ := getValue_of_written text
    have written := mergeValues_written trees text.text
    constructor
    · rintro ⟨jsonRet, value', wrote, read', same'⟩
      rw [written] at wrote
      cases wrote
      rw [read] at read'
      cases read'
      refine ⟨fun path leaf view inside => null ?_,
        shortView_of_shortStrings (same.mp same')⟩
      exact null_iff.mpr ⟨path, leaf, view, inside⟩
    · intro writable
      exact ⟨_, value, written, read,
        same.mpr (shortStrings_of_view document writable.short)⟩

/-- An upper object in which no leaf comes behind an object overrides exactly
the lower objects that it is compatible with, and the text is right exactly if
the result can be written; any other one fails on some lower object, though
they are compatible. -/
theorem merges_law (high : Entries double)
    (document : Document (.obj high : JsonValuePtr double)) :
    (Orderly high → ∀ low : Entries double,
      Document (.obj low : JsonValuePtr double) →
      Readable (merged (JsonValuePtr.obj low).view
        (JsonValuePtr.obj high).view) →
      (Merges low high ↔
        Compatible (JsonValuePtr.obj low).view (JsonValuePtr.obj high).view ∧
          Writable (merged (JsonValuePtr.obj low).view
            (JsonValuePtr.obj high).view))) ∧
    (¬ Orderly high → ∃ low : Entries double,
      Document (.obj low : JsonValuePtr double) ∧
      Compatible (JsonValuePtr.obj low).view (JsonValuePtr.obj high).view ∧
      ¬ Merges low high) := by
  constructor
  · intro orderly low lower readable
    have made : ∀ {result : JsonValuePtr double},
        mergeTrees (.obj low) (.obj high) = .ok result → Document result := by
      intro result trees
      obtain ⟨path, run⟩ := mergeTrees_eq_ok.mp trees
      exact document_mergeEntries document lower run
    rw [← overrides_iff_compatible document orderly]
    constructor
    · rintro ⟨result, jsonRet, value, trees, overrides, wrote, read, same⟩
      rw [← overrides] at readable ⊢
      exact ⟨⟨result, trees, overrides⟩,
        (writes_iff (made trees) trees readable).mp
          ⟨jsonRet, value, wrote, read, same⟩⟩
    · rintro ⟨⟨result, trees, overrides⟩, writable⟩
      rw [← overrides] at readable writable
      obtain ⟨jsonRet, value, wrote, read, same⟩ :=
        (writes_iff (made trees) trees readable).mpr writable
      exact ⟨result, jsonRet, value, trees, overrides, wrote, read, same⟩
  · intro disorderly
    refine ⟨branches high, document_branches document,
      compatible_branches document, ?_⟩
    rintro ⟨result, _, _, trees, overrides, _⟩
    exact not_overrides_branches document disorderly
      ⟨result, trees, overrides⟩

theorem readable_merged
    (lower : Document (.obj low : JsonValuePtr double))
    (upper : Document (.obj high : JsonValuePtr double))
    (numbers : ∀ number, Within (.num number) (.obj low) ∨
      Within (.num number) (.obj high) → ReadBack number) :
    Readable (merged (JsonValuePtr.obj low).view
      (JsonValuePtr.obj high).view) := by
  intro path leaf view number inside
  have isLeaf : IsLeaf (.num number : JsonValuePtr double) :=
    .num number
  refine numbers number ((of_merged view).imp (fun here => ?_) fun here => ?_)
  · exact (within_iff isLeaf lower).mpr ⟨path, leaf, here, inside⟩
  · exact (within_iff isLeaf upper).mpr ⟨path, leaf, here, inside⟩

omit [FloatingPoint double] in
theorem writable_merged
    (lower : Document (.obj low : JsonValuePtr double))
    (upper : Document (.obj high : JsonValuePtr double))
    (noNull : ¬ Within .null (.obj low : JsonValuePtr double))
    (noNull' : ¬ Within .null (.obj high : JsonValuePtr double))
    (short : ShortStrings (.obj low : JsonValuePtr double))
    (short' : ShortStrings (.obj high : JsonValuePtr double)) :
    Writable (merged (JsonValuePtr.obj low).view
      (JsonValuePtr.obj high).view) := by
  have isLeaf : IsLeaf (.null : JsonValuePtr double) := .null
  have view := shortView_of_shortStrings short
  have view' := shortView_of_shortStrings short'
  refine ⟨fun path leaf here inside => ?_, fun path some_ => ?_,
    fun path leaf here => ?_⟩
  · rcases of_merged here with here | here
    · exact noNull ((within_iff isLeaf lower).mpr ⟨path, leaf, here, inside⟩)
    · exact noNull' ((within_iff isLeaf upper).mpr ⟨path, leaf, here, inside⟩)
  · obtain ⟨spot, here⟩ := Option.ne_none_iff_exists'.mp some_
    rcases of_merged here with here | here
    · exact view.keys path (ne_of_eq_of_ne here (Option.some_ne_none _))
    · exact view'.keys path (ne_of_eq_of_ne here (Option.some_ne_none _))
  · exact (of_merged here).elim (view.strings path leaf)
      (view'.strings path leaf)

end Written

theorem Accepted.document [FloatingPoint double] {p : JsonValuePtr double}
    (accepted : Accepted p) : Document p := by
  induction accepted with
  | string value => exact .string value
  | num _ => exact .num _
  | obj distinct _ ih => exact .obj distinct ih
  | array _ ih => exact .array ih
  | boolean value => exact .boolean value
  | null => exact .null

/-- What `getValue` returns can be merged. -/
theorem document_of_getValue [FloatingPoint double] {str : List UInt8}
    {p : JsonValuePtr double} {reader : BufferJsonReader}
    (ran : getValue str = .ok p reader) : Document p :=
  (accepted_of_getValue ran).document

section Deployments

/-- `{"x":1,"o":{"k":true}}` -/
def lower : Entries (Option ℚ) :=
  [([120], .num (.ofInt64 1)), ([111], .obj [([107], .boolean true)])]

/-- `{"n":[false],"o":{"k":"v"}}` -/
def upper : Entries (Option ℚ) :=
  [([110], .array [.boolean false]), ([111], .obj [([107], .string [118])])]

theorem view_upper {path : List FieldName}
    (branch : (JsonValuePtr.obj upper).view path = some .branch) :
    path = [] ∨ path = [[111]] := by
  have leaf : ∀ {value : JsonValuePtr (Option ℚ)} (path), IsLeaf value →
      value.view path ≠ some .branch := by
    intro value path isLeaf
    cases path with
    | nil =>
        rw [view_leaf_nil isLeaf]
        intro same
        cases same
    | cons key path =>
        rw [view_leaf_cons isLeaf]
        intro same
        cases same
  cases path with
  | nil => exact .inl rfl
  | cons key path =>
      obtain ⟨child, member, same⟩ :=
        view_below (ne_of_eq_of_ne branch (Option.some_ne_none _))
      rw [same] at branch
      simp only [upper, List.mem_cons, Prod.mk.injEq, List.not_mem_nil,
        or_false] at member
      rcases member with ⟨rfl, rfl⟩ | ⟨rfl, rfl⟩
      · exact absurd branch (leaf path (.array _))
      · cases path with
        | nil => exact .inr rfl
        | cons key path =>
            obtain ⟨child, member, same⟩ :=
              view_below (ne_of_eq_of_ne branch (Option.some_ne_none _))
            rw [same] at branch
            simp only [List.mem_singleton, Prod.mk.injEq] at member
            obtain ⟨rfl, rfl⟩ := member
            exact absurd branch (leaf path (.string _))

theorem document_lower : Document (.obj lower) := by
  refine .obj (by decide) (List.forall_mem_cons.mpr ⟨.num _, ?_⟩)
  refine List.forall_mem_singleton.mpr (.obj (by decide) ?_)
  exact List.forall_mem_singleton.mpr (.boolean true)

theorem document_upper : Document (.obj upper) := by
  refine .obj (by decide) (List.forall_mem_cons.mpr ⟨.array ?_, ?_⟩)
  · exact List.forall_mem_singleton.mpr (.boolean false)
  · refine List.forall_mem_singleton.mpr (.obj (by decide) ?_)
    exact List.forall_mem_singleton.mpr (.string [118])

theorem within_lower {q : JsonValuePtr (Option ℚ)} (isLeaf : IsLeaf q)
    (inside : Within q (.obj lower)) :
    q = .num (.ofInt64 1) ∨ q = .boolean true := by
  cases inside with
  | here => exact absurd rfl (isLeaf _)
  | entry member inside =>
      simp only [lower, List.mem_cons, List.not_mem_nil, or_false] at member
      rcases member with rfl | rfl
      · cases inside
        exact .inl rfl
      · cases inside with
        | here => exact absurd rfl (isLeaf _)
        | entry member inside =>
            obtain rfl := List.mem_singleton.mp member
            cases inside
            exact .inr rfl

theorem within_upper {q : JsonValuePtr (Option ℚ)} (isLeaf : IsLeaf q)
    (inside : Within q (.obj upper)) :
    q = .array [.boolean false] ∨ q = .boolean false ∨ q = .string [118] := by
  cases inside with
  | here => exact absurd rfl (isLeaf _)
  | entry member inside =>
      simp only [upper, List.mem_cons, List.not_mem_nil, or_false] at member
      rcases member with rfl | rfl
      · cases inside with
        | here => exact .inl rfl
        | element member inside =>
            obtain rfl := List.mem_singleton.mp member
            cases inside
            exact .inr (.inl rfl)
      · cases inside with
        | here => exact absurd rfl (isLeaf _)
        | entry member inside =>
            obtain rfl := List.mem_singleton.mp member
            cases inside
            exact .inr (.inr rfl)

/-- Of the lower one `x` stays, and `o.k` is overridden. -/
theorem merges_law_nested : Merges lower upper := by
  have orderly : Orderly upper :=
    .leaf (.array _) (.obj (.leaf (.string _) .nil) (by simp))
  have key : ∀ byte : UInt8, ShortRuns [byte] := fun byte =>
    shortRuns_of_length (by rw [List.length_singleton]; decide)
  have short : ShortStrings (JsonValuePtr.obj lower) := by
    refine .obj (by simp [lower, key]) (List.forall_mem_cons.mpr ⟨.num _, ?_⟩)
    refine List.forall_mem_singleton.mpr (.obj (by simp [key]) ?_)
    exact List.forall_mem_singleton.mpr (.boolean true)
  have short' : ShortStrings (JsonValuePtr.obj upper) := by
    refine .obj (by simp [upper, key])
      (List.forall_mem_cons.mpr ⟨.array ?_, ?_⟩)
    · exact List.forall_mem_singleton.mpr (.boolean false)
    · refine List.forall_mem_singleton.mpr (.obj (by simp [key]) ?_)
      exact List.forall_mem_singleton.mpr (.string (key 118))
  refine ((merges_law upper document_upper).1 orderly lower document_lower
    (readable_merged document_lower document_upper ?_)).mpr
      ⟨⟨?_, ?_⟩, writable_merged document_lower document_upper
        ?_ ?_ short short'⟩
  · rintro number (inside | inside)
    · rcases within_lower (.num number) inside with same | same
      · cases same
        exact num_written 1
      · cases same
    · rcases within_upper (.num number) inside with same | same | same <;>
        cases same
  · intro path branch _ value
    rcases view_upper branch with rfl | rfl
    · rw [view_obj_nil]
      nofun
    · nofun
  · intro path branch _
    rcases view_upper branch with rfl | rfl
    · exact view_obj_nil
    · rfl
  · intro inside
    rcases within_lower .null inside with same | same <;> cases same
  · intro inside
    rcases within_upper .null inside with same | same | same <;> cases same

/-- `{"a":{"b":true},"c":false}` over `{}`. -/
theorem sibling_lost :
    (mergeJson (Option ℚ) (ascii "\x7b\x7d")
        (ascii "\x7b\"a\":\x7b\"b\":true\x7d,\"c\":false\x7d")).toOption =
      some (ascii "\x7b\"a\":\x7b\"b\":true,\"c\":false\x7d\x7d") ∧
    ¬ Merges ([] : Entries (Option ℚ))
      [([97], .obj [([98], .boolean true)]), ([99], .boolean false)] := by
  refine ⟨by decide +kernel, ?_⟩
  rintro ⟨result, _, _, trees, overrides, _⟩
  have value : mergeTrees (.obj ([] : Entries (Option ℚ)))
      (.obj [([97], .obj [([98], .boolean true)]), ([99], .boolean false)]) =
      .ok (.obj
        [([97], .obj [([98], .boolean true), ([99], .boolean false)])]) := by
    rfl
  rw [value] at trees
  cases trees
  have lost := congrFun overrides [[99]]
  have here : (JsonValuePtr.obj
      ([([97], .obj [([98], .boolean true)]), ([99], .boolean false)] :
        Entries (Option ℚ))).view [[99]] = some (.leaf (.boolean false)) := rfl
  rw [merged_of_some here] at lost
  cases lost

end Deployments

end TarsCpp.Json
