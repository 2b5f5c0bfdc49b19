import TarsCpp.Json.Parser
import TarsCpp.PathWrites

/-!
# Merging objects

`TC_Json::mergeObj`, which walks through the upper object with one path for
all levels and writes each leaf into the lower object.  A leaf takes its key
off the path again, an object does not.

So it makes the writes of the leaves of the upper object, but behind an object
at the path of its last key, and it overrides the lower object when no leaf
comes behind an object.
-/

namespace TarsCpp.Json

open PathWrites

variable {double : Type}

abbrev FieldName := List UInt8

/-- `value.find(key)` -/
def Entries.find (key : FieldName) :
    Entries double → Option (JsonValuePtr double)
  | [] => none
  | entry :: entries =>
      if entry.1 = key then some entry.2 else Entries.find key entries

/-- The leaf branch of `mergeObj`: the loop goes down along the path and makes
the objects that are missing.  `none` is the exception of a null pointer, which
`dynamicCast` gives for a value that is no object. -/
def writeLeaf (leaf : JsonValuePtr double) :
    List FieldName → JsonValuePtr double → Option (JsonValuePtr double)
  | [key], .obj value => some (.obj (Entries.assign key leaf value))
  | key :: path, .obj value => do
      let tmp ← writeLeaf leaf path ((Entries.find key value).getD (.obj []))
      some (.obj (Entries.assign key tmp value))
  | _, _ => none

/-- A leaf takes its key off the path again. -/
def mergeLeaf (leaf target : JsonValuePtr double) (path : List FieldName) :
    Option (JsonValuePtr double × List FieldName) := do
  let target ← writeLeaf leaf path target
  some (target, path.dropLast)

mutual

/-- `mergeObj(from, to, path)`, with the new values of `to` and `path`. -/
def mergeObj (source : JsonValuePtr double) (target : JsonValuePtr double)
    (path : List FieldName) : Option (JsonValuePtr double × List FieldName) :=
  match source with
  | .nullptr => none
  | .obj value => mergeEntries value target path
  | .string value => mergeLeaf (.string value) target path
  | .num value => mergeLeaf (.num value) target path
  | .array value => mergeLeaf (.array value) target path
  | .boolean value => mergeLeaf (.boolean value) target path
  | .null => mergeLeaf .null target path

/-- The loop over the entries of `fromObj`. -/
def mergeEntries (entries : List (FieldName × JsonValuePtr double))
    (target : JsonValuePtr double) (path : List FieldName) :
    Option (JsonValuePtr double × List FieldName) :=
  match entries with
  | [] => some (target, path)
  | (first, second) :: entries => do
      let (target, path) ← mergeObj second target (path ++ [first])
      mergeEntries entries target path

end

inductive MergeFailure
  /-- What `getValue` fails with. -/
  | getValue (fault : Fault)
  | TC_Json_Exception (buffer : String)
  /-- `TC_AutoPtrNull_Exception` -/
  | nullHandle
  /-- `assert(false)` in `writeValue` -/
  | assertion

/-- `mergeJson` between the calls of `getValue` and that of `writeValue`. -/
def mergeTrees : JsonValuePtr double → JsonValuePtr double →
    Except MergeFailure (JsonValuePtr double)
  | .nullptr, _ => .error .nullHandle
  | .obj _, .nullptr => .error .nullHandle
  | .obj low, .obj high =>
      match mergeObj (.obj high) (.obj low) [] with
      | some (p1, _) => .ok p1
      | none => .error .nullHandle
  | _, _ =>
      .error (.TC_Json_Exception
        "Error: mergeing json string must be two json object string")

/-- `mergeJson` behind the calls of `getValue`. -/
def mergeValues [FloatingPoint double] (p1 p2 : JsonValuePtr double) :
    Except MergeFailure (List UInt8) := do
  let p1 ← mergeTrees p1 p2
  match writeValue p1 false with
  | some jsonRet => .ok jsonRet
  | none => .error .assertion

def mergeJson (double : Type) [FloatingPoint double]
    (jsonLow jsonHigh : List UInt8) : Except MergeFailure (List UInt8) :=
  match (getValue jsonLow : EStateM.Result _ _ (JsonValuePtr double)) with
  | .error fault _ => .error (.getValue fault)
  | .ok p1 _ =>
      match (getValue jsonHigh : EStateM.Result _ _ (JsonValuePtr double)) with
      | .error fault _ => .error (.getValue fault)
      | .ok p2 _ => mergeValues p1 p2

/-- What stands at a path below the value: a leaf is all that is no object. -/
def JsonValuePtr.view :
    JsonValuePtr double → View FieldName (JsonValuePtr double)
  | .obj _, [] => some .branch
  | leaf, [] => some (.leaf leaf)
  | .obj value, key :: path =>
      match Entries.find key value with
      | some child => child.view path
      | none => none
  | _, _ :: _ => none

/-- What `getValue` returns: the keys of a map differ, and no pointer is
null. -/
inductive Document : JsonValuePtr double → Prop
  | string (value : List UInt8) : Document (.string value)
  | num (value : JsonValueNum double) : Document (.num value)
  | obj {entries : Entries double} (distinct : entries.keys.Nodup)
      (each : ∀ entry ∈ entries, Document entry.2) : Document (.obj entries)
  | array {values : List (JsonValuePtr double)}
      (each : ∀ value ∈ values, Document value) : Document (.array values)
  | boolean (value : Bool) : Document (.boolean value)
  | null : Document .null

def IsLeaf (value : JsonValuePtr double) : Prop :=
  ∀ entries, value ≠ .obj entries

section IsLeaf

theorem IsLeaf.nullptr : IsLeaf (.nullptr : JsonValuePtr double) := by
  intro entries same
  cases same

theorem IsLeaf.string (value : List UInt8) :
    IsLeaf (.string value : JsonValuePtr double) := by
  intro entries same
  cases same

theorem IsLeaf.num (value : JsonValueNum double) :
    IsLeaf (.num value : JsonValuePtr double) := by
  intro entries same
  cases same

theorem IsLeaf.array (values : List (JsonValuePtr double)) :
    IsLeaf (.array values) := by
  intro entries same
  cases same

theorem IsLeaf.boolean (value : Bool) :
    IsLeaf (.boolean value : JsonValuePtr double) := by
  intro entries same
  cases same

theorem IsLeaf.null : IsLeaf (.null : JsonValuePtr double) := by
  intro entries same
  cases same

end IsLeaf

/-- Objects by their entries, and objects among the entries. -/
theorem Entries.induction {p : Entries double → Prop} (nil : p [])
    (leaf : ∀ key value entries, IsLeaf value → p entries →
      p ((key, value) :: entries))
    (obj : ∀ key inner entries, p inner → p entries →
      p ((key, .obj inner) :: entries)) : ∀ entries, p entries
  | [] => nil
  | (key, value) :: entries =>
      have rest := Entries.induction nil leaf obj entries
      match value with
      | .obj inner =>
          obj key inner entries (Entries.induction nil leaf obj inner) rest
      | .nullptr => leaf key _ entries (fun _ same => nomatch same) rest
      | .string _ => leaf key _ entries (fun _ same => nomatch same) rest
      | .num _ => leaf key _ entries (fun _ same => nomatch same) rest
      | .array _ => leaf key _ entries (fun _ same => nomatch same) rest
      | .boolean _ => leaf key _ entries (fun _ same => nomatch same) rest
      | .null => leaf key _ entries (fun _ same => nomatch same) rest

section Views

variable {key key' : FieldName} {path : List FieldName}
  {value leaf : JsonValuePtr double} {entries : Entries double}

theorem Entries.find_assign :
    (entries.assign key value).find key' =
      if key' = key then some value else entries.find key' := by
  induction entries with
  | nil =>
      rw [assign, find, find]
      exact ite_congr (propext eq_comm) (fun _ => rfl) (fun _ => rfl)
  | cons entry entries ih =>
      rw [assign]
      split
      · next same =>
          rw [find, find, same]
          by_cases here : key' = key
          · rw [if_pos here.symm, if_pos here]
          · rw [if_neg (Ne.symm here), if_neg here, if_neg (Ne.symm here)]
      · next other =>
          rw [find, find, ih]
          by_cases here : entry.1 = key'
          · rw [if_pos here, if_pos here, if_neg]
            rintro rfl
            exact other here
          · rw [if_neg here, if_neg here]

theorem view_leaf_nil (isLeaf : IsLeaf leaf) :
    leaf.view [] = some (.leaf leaf) := by
  cases leaf with
  | obj entries => exact absurd rfl (isLeaf entries)
  | nullptr => rfl
  | string _ => rfl
  | num _ => rfl
  | array _ => rfl
  | boolean _ => rfl
  | null => rfl

theorem view_leaf_cons (isLeaf : IsLeaf leaf) :
    leaf.view (key :: path) = none := by
  cases leaf with
  | obj entries => exact absurd rfl (isLeaf entries)
  | nullptr => rfl
  | string _ => rfl
  | num _ => rfl
  | array _ => rfl
  | boolean _ => rfl
  | null => rfl

theorem view_obj_nil : (JsonValuePtr.obj entries).view [] = some .branch := by
  rw [JsonValuePtr.view]

theorem view_obj_cons :
    (JsonValuePtr.obj entries).view (key :: path) =
      (Entries.find key entries).bind fun child => child.view path := by
  rw [JsonValuePtr.view]
  cases Entries.find key entries with
  | none => rfl
  | some child => rfl

theorem view_found {child : JsonValuePtr double}
    (found : Entries.find key entries = some child) :
    (JsonValuePtr.obj entries).view (key :: path) = child.view path := by
  rw [view_obj_cons, found, Option.bind_some]

theorem view_missing (missing : Entries.find key entries = none) :
    (JsonValuePtr.obj entries).view (key :: path) = none := by
  rw [view_obj_cons, missing, Option.bind_none]

theorem view_tree (value : JsonValuePtr double) : value.view.Tree := by
  intro path
  induction path generalizing value with
  | nil =>
      intro below _ differ some
      cases below with
      | nil => exact absurd rfl differ
      | cons key below =>
          cases value with
          | obj entries => exact view_obj_nil
          | nullptr => exact absurd rfl some
          | string _ => exact absurd rfl some
          | num _ => exact absurd rfl some
          | array _ => exact absurd rfl some
          | boolean _ => exact absurd rfl some
          | null => exact absurd rfl some
  | cons key path ih =>
      intro below inside differ some
      obtain ⟨rest, rfl⟩ := inside
      cases value with
      | obj entries =>
          cases found : Entries.find key entries with
          | none => exact absurd (view_missing found) some
          | some child =>
              rw [List.cons_append, view_found found] at some
              rw [view_found found]
              refine ih child _ (List.prefix_append _ _) ?_ some
              intro same
              exact differ (congrArg (key :: ·) same)
      | nullptr => exact absurd rfl some
      | string _ => exact absurd rfl some
      | num _ => exact absurd rfl some
      | array _ => exact absurd rfl some
      | boolean _ => exact absurd rfl some
      | null => exact absurd rfl some

end Views

mutual

/-- The keys that stay on the path behind an entry. -/
def stays (key : FieldName) (value : JsonValuePtr double) : List FieldName :=
  match value with
  | .obj entries => key :: staysAll entries
  | _ => []

def staysAll (entries : List (FieldName × JsonValuePtr double)) :
    List FieldName :=
  match entries with
  | [] => []
  | (key, value) :: entries => stays key value ++ staysAll entries

end

mutual

/-- The leaves with their paths, where each entry leaves some keys behind. -/
def walk (behind : FieldName → JsonValuePtr double → List FieldName)
    (value : JsonValuePtr double) (path : List FieldName) :
    List (Write FieldName (JsonValuePtr double)) :=
  match value with
  | .obj entries => walkAll behind entries path
  | leaf => [(path, leaf)]

def walkAll (behind : FieldName → JsonValuePtr double → List FieldName)
    (entries : List (FieldName × JsonValuePtr double)) (path : List FieldName) :
    List (Write FieldName (JsonValuePtr double)) :=
  match entries with
  | [] => []
  | (key, value) :: entries =>
      walk behind value (path ++ [key]) ++
        walkAll behind entries (path ++ behind key value)

end

/-- The writes of `mergeObj`. -/
def written (entries : Entries double) (path : List FieldName) :
    List (Write FieldName (JsonValuePtr double)) :=
  walkAll stays entries path

/-- The leaves at their own paths. -/
def leaves (entries : Entries double) (path : List FieldName) :
    List (Write FieldName (JsonValuePtr double)) :=
  walkAll (fun _ _ => []) entries path

/-- A value without leaves. -/
inductive Bare : JsonValuePtr double → Prop
  | obj {entries : Entries double} (each : ∀ entry ∈ entries, Bare entry.2) :
      Bare (.obj entries)

/-- Behind an object stands no leaf in the same object. -/
inductive Orderly : Entries double → Prop
  | nil : Orderly []
  | leaf {key : FieldName} {value : JsonValuePtr double}
      {entries : Entries double} (isLeaf : IsLeaf value) (rest : Orderly entries) :
      Orderly ((key, value) :: entries)
  | obj {key : FieldName} {inner entries : Entries double}
      (first : Orderly inner)
      (rest : ∀ entry ∈ entries, Bare entry.2) :
      Orderly ((key, .obj inner) :: entries)

section Walks

variable {key : FieldName} {value : JsonValuePtr double}
  {entries : Entries double} {path : List FieldName}
  {behind : FieldName → JsonValuePtr double → List FieldName}

theorem stays_leaf (isLeaf : IsLeaf value) : stays key value = [] := by
  rw [stays]
  exact isLeaf

theorem walk_leaf (isLeaf : IsLeaf value) :
    walk behind value path = [(path, value)] := by
  rw [walk]
  exact isLeaf

theorem walkAll_leaf (isLeaf : IsLeaf value) :
    walkAll behind ((key, value) :: entries) path =
      (path ++ [key], value) ::
        walkAll behind entries (path ++ behind key value) := by
  rw [walkAll, walk_leaf isLeaf, List.singleton_append]

theorem walkAll_obj {inner : Entries double} :
    walkAll behind ((key, .obj inner) :: entries) path =
      walkAll behind inner (path ++ [key]) ++
        walkAll behind entries (path ++ behind key (.obj inner)) := by
  rw [walkAll, walk]

theorem bare_iff (behind : FieldName → JsonValuePtr double → List FieldName)
    (entries : Entries double) (path : List FieldName) :
    walkAll behind entries path = [] ↔ ∀ entry ∈ entries, Bare entry.2 := by
  induction entries using Entries.induction generalizing path with
  | nil => simp [walkAll]
  | leaf key value entries isLeaf _ =>
      rw [walkAll_leaf isLeaf, List.forall_mem_cons]
      constructor
      · intro empty
        cases empty
      · rintro ⟨bare, _⟩
        cases bare with
        | obj each => exact absurd rfl (isLeaf _)
  | obj key inner entries ih ih' =>
      rw [walkAll_obj, List.append_eq_nil_iff, ih, ih', List.forall_mem_cons]
      refine and_congr_left fun _ => ⟨Bare.obj, ?_⟩
      rintro ⟨each⟩
      exact each

theorem written_of_orderly (orderly : Orderly entries) (path : List FieldName) :
    written entries path = leaves entries path := by
  induction orderly generalizing path with
  | nil => rw [written, leaves, walkAll, walkAll]
  | leaf isLeaf _ ih =>
      rw [written, leaves, walkAll_leaf isLeaf, walkAll_leaf isLeaf,
        stays_leaf isLeaf, List.append_nil]
      exact congrArg _ (ih path)
  | obj _ rest ih =>
      have none := fun behind path => (bare_iff behind _ path).mpr rest
      rw [written, leaves, walkAll_obj, walkAll_obj, none, none,
        List.append_nil, List.append_nil]
      exact ih _

end Walks

def total (writes : List (Write FieldName (JsonValuePtr double))) : Nat :=
  (writes.map fun write => write.1.length).sum

section Lengths

variable {entries : Entries double}

theorem total_append
    (writes writes' : List (Write FieldName (JsonValuePtr double))) :
    total (writes ++ writes') = total writes + total writes' := by
  rw [total, List.map_append, List.sum_append]
  rfl

theorem total_cons (write : Write FieldName (JsonValuePtr double))
    (writes : List (Write FieldName (JsonValuePtr double))) :
    total (write :: writes) = write.1.length + total writes := by
  rw [total, List.map_cons, List.sum_cons]
  rfl

theorem length_written (entries : Entries double)
    (path path' : List FieldName) :
    (written entries path).length = (leaves entries path').length := by
  rw [written, leaves]
  induction entries using Entries.induction generalizing path path' with
  | nil => rw [walkAll, walkAll]
  | leaf key value entries isLeaf ih =>
      rw [walkAll_leaf isLeaf, walkAll_leaf isLeaf, List.length_cons,
        List.length_cons, ih]
  | obj key inner entries ih ih' =>
      rw [walkAll_obj, walkAll_obj, List.length_append, List.length_append,
        ih _ (path' ++ [key]), ih']

/-- Each leaf is written at a path that is longer by as much as the path
already is. -/
theorem total_le (path path' : List FieldName) (more : Nat)
    (longer : path'.length + more ≤ path.length) :
    total (leaves entries path') + more * (leaves entries path').length ≤
      total (written entries path) := by
  rw [written, leaves]
  induction entries using Entries.induction generalizing path path' with
  | nil =>
      rw [walkAll, walkAll, List.length_nil]
      omega
  | leaf key value entries isLeaf ih =>
      rw [walkAll_leaf isLeaf, walkAll_leaf isLeaf, total_cons, total_cons,
        List.length_cons, stays_leaf isLeaf]
      have rest := ih (path ++ []) (path' ++ []) (by simpa using longer)
      simp only [List.length_append, List.length_singleton, Nat.mul_succ]
      omega
  | obj key inner entries ih ih' =>
      rw [walkAll_obj, walkAll_obj, total_append, total_append,
        List.length_append]
      have first := ih (path ++ [key]) (path' ++ [key]) (by simp; omega)
      have rest := ih' (path ++ stays key (.obj inner)) (path' ++ [])
        (by simp; omega)
      rw [Nat.mul_add]
      omega

theorem total_lt (disorderly : ¬ Orderly entries) (path path' : List FieldName)
    (longer : path'.length ≤ path.length) :
    total (leaves entries path') < total (written entries path) := by
  induction entries using Entries.induction generalizing path path' with
  | nil => exact absurd .nil disorderly
  | leaf key value entries isLeaf ih =>
      have rest := ih (fun orderly => disorderly (.leaf isLeaf orderly)) path
        path' longer
      rw [written, leaves, walkAll_leaf isLeaf, walkAll_leaf isLeaf,
        total_cons, total_cons, stays_leaf isLeaf, List.append_nil,
        List.append_nil]
      simp only [List.length_append, List.length_singleton]
      rw [written, leaves] at rest
      omega
  | obj key inner entries ih ih' =>
      have whole : written ((key, .obj inner) :: entries) path =
          written inner (path ++ [key]) ++
            written entries (path ++ stays key (.obj inner)) := walkAll_obj
      have whole' : leaves ((key, .obj inner) :: entries) path' =
          leaves inner (path' ++ [key]) ++ leaves entries (path' ++ []) :=
        walkAll_obj
      rw [whole, whole', total_append, total_append, List.append_nil]
      by_cases first : Orderly inner
      · have leafBehind : leaves entries path' ≠ [] := by
          intro empty
          exact disorderly (.obj first ((bare_iff _ entries path').mp empty))
        have same := @total_le _ inner (path ++ [key]) (path' ++ [key]) 0
          (by simp; omega)
        have further : path'.length + 1 ≤
            (path ++ stays key (.obj inner)).length := by
          rw [stays, List.length_append, List.length_cons]
          omega
        have strict := @total_le _ entries _ path' 1 further
        have positive := List.length_pos_of_ne_nil leafBehind
        omega
      · have strict := ih first (path ++ [key]) (path' ++ [key])
          (by simp; omega)
        have rest := @total_le _ entries (path ++ stays key (.obj inner))
          path' 0 (by simp; omega)
        omega

end Lengths

end TarsCpp.Json
