import TarsCpp.Overwriting
import TarsCpp.Config.Lines
import TarsCpp.Config.Parsed

/-!
# Parsing a printed domain

A tree as the paths of its domains and the values of the keys in them.  The
lines of a domain add it, with its subdomains, to the domain that is open, under
the escaped names.
-/

namespace TarsCpp.Config

open Overwriting

namespace TcConfigDomain

/-- The parameters of the domain at a path. -/
def contents (root : TcConfigDomain) (path : Path) :
    Option (List (List UInt8 × List UInt8)) :=
  (root.find? path).map param

def Has (root : TcConfigDomain) (path : Path) : Prop :=
  root.contents path ≠ none

/-- The value of a key in the domain at a path. -/
def valueAt (root : TcConfigDomain) (spot : Path × List UInt8) :
    Option (List UInt8) :=
  (root.contents spot.1).bind fun param =>
    (param.find? (·.1 = spot.2)).map Prod.snd

variable {root old new : TcConfigDomain} {path : Path}

theorem contents_cons (root : TcConfigDomain) (key : List UInt8)
    (path : Path) :
    root.contents (key :: path) = (root.child key).bind (·.contents path) := by
  rw [contents, find?]
  cases root.child key <;> rfl

theorem contents_assign (found : root.find? path = some old) (other : Path) :
    (root.assign path new).contents other =
      if path <+: other then new.contents (other.drop path.length)
      else root.contents other := by
  induction path generalizing root other with
  | nil =>
      rw [assign, if_pos List.nil_prefix]
      rfl
  | cons name path ih =>
      obtain ⟨child, here, later⟩ := Option.bind_eq_some_iff.mp found
      cases other with
      | nil =>
          rw [if_neg (by simp)]
          obtain ⟨own, param, subdomain, line⟩ := root
          rfl
      | cons key other =>
          rw [contents_cons, contents_cons, child_assign]
          by_cases same : key = name
          · subst same
            rw [if_pos rfl, here]
            simpa [List.cons_prefix_cons] using ih later other
          · have apart : ¬ name :: path <+: key :: other := fun inside =>
              same (List.cons_prefix_cons.mp inside).1.symm
            rw [if_neg same, if_neg apart]

theorem contents_of_find? (found : root.find? path = some old) (other : Path) :
    root.contents (path ++ other) = old.contents other := by
  rw [contents, find?_append, found]
  rfl

/-- Setting a parameter changes what stands at one path. -/
theorem contents_set (found : root.find? path = some old)
    (subdomain : new.subdomain = old.subdomain) :
    (root.assign path new).contents =
      Function.update root.contents path (some new.param) := by
  funext other
  rw [contents_assign found]
  by_cases inside : path <+: other
  · obtain ⟨rest, rfl⟩ := inside
    rw [if_pos (List.prefix_append _ _), List.drop_left]
    cases rest with
    | nil =>
        rw [List.append_nil, Function.update_self]
        rfl
    | cons key rest =>
        have longer : path ++ key :: rest ≠ path := by simp
        rw [Function.update_of_ne longer, contents_of_find? found,
          contents_cons, contents_cons, child, child, subdomain]
  · have other' : other ≠ path := by
      rintro rfl
      exact inside (List.prefix_refl _)
    rw [if_neg inside, Function.update_of_ne other']

/-- Adding a domain keeps the one that is there. -/
theorem contents_add (found : root.find? path = some old)
    (name : List UInt8) :
    (root.assign path (old.addSubDomain name)).contents =
      Function.update root.contents (path ++ [name])
        (some ((root.contents (path ++ [name])).getD [])) := by
  funext other
  rw [contents_assign found]
  by_cases inside : path <+: other
  · obtain ⟨rest, rfl⟩ := inside
    rw [if_pos (List.prefix_append _ _), List.drop_left]
    cases rest with
    | nil =>
        have shorter : path ++ [] ≠ path ++ [name] := by simp
        rw [Function.update_of_ne shorter, contents_of_find? found]
        obtain ⟨own, param, subdomain, line⟩ := old
        rw [contents, contents, addSubDomain]
        split <;> rfl
    | cons key rest =>
        rw [contents_cons, child_addSubDomain]
        have before := contents_of_find? found (key :: rest)
        rw [contents_cons] at before
        by_cases same : key = name
        · subst same
          rw [if_pos rfl, Option.bind_some]
          cases rest with
          | nil =>
              rw [Function.update_self, before]
              cases old.child key <;> rfl
          | cons next rest =>
              have longer : path ++ key :: next :: rest ≠ path ++ [key] := by
                simp
              rw [Function.update_of_ne longer, before]
              cases old.child key <;> rfl
        · have apart : path ++ key :: rest ≠ path ++ [name] := by
            simp [same]
          rw [if_neg same, Function.update_of_ne apart, before]
  · have other' : other ≠ path ++ [name] := by
      rintro rfl
      exact inside (List.prefix_append _ _)
    rw [if_neg inside, Function.update_of_ne other']

/-- A domain is replaced by one with the same name. -/
theorem WellNamed.replace (wellNamed : root.WellNamed)
    (found : root.find? path = some old) (same : new.name = old.name)
    (below : new.WellNamed) : (root.assign path new).WellNamed := by
  apply wellNamed.assign _ below
  intro front key split
  rw [same]
  rw [split] at found
  exact wellNamed.name_eq found

theorem has_iff : root.Has path ↔ ∃ domain, root.find? path = some domain := by
  rw [Has, contents, ne_eq, Option.map_eq_none_iff]
  exact Option.ne_none_iff_exists'

end TcConfigDomain

/-- The keys that are set at the paths of the entries. -/
def settle (entries : List (Path × List (List UInt8 × List UInt8))) :
    List ((Path × List UInt8) × List UInt8) :=
  entries.flatMap fun entry =>
    entry.2.map fun param => ((entry.1, param.1), param.2)

theorem settle_append
    (front back : List (Path × List (List UInt8 × List UInt8))) :
    settle (front ++ back) = settle front ++ settle back :=
  List.flatMap_append

/-- The tree has grown by these domains and parameters. -/
structure Loads (before after : TcConfigDomain)
    (entries : List (Path × List (List UInt8 × List UInt8))) : Prop where
  has : ∀ path, after.Has path ↔
    before.Has path ∨ path ∈ entries.map Prod.fst
  value : after.valueAt = overwrite (settle entries) before.valueAt

section Loads

variable {first second third : TcConfigDomain}
  {front back : List (Path × List (List UInt8 × List UInt8))}

theorem Loads.refl : Loads first first [] where
  has := fun _ => (or_iff_left List.not_mem_nil).symm
  value := rfl

theorem Loads.trans (one : Loads first second front)
    (two : Loads second third back) : Loads first third (front ++ back) where
  has := by
    intro path
    rw [two.has, one.has, List.map_append, List.mem_append, or_assoc]
  value := by
    rw [two.value, one.value, settle_append, overwrite_append]

/-- Two entries for one path are one entry. -/
theorem Loads.merge {path : Path}
    {own more : List (List UInt8 × List UInt8)}
    (loads : Loads first second ((path, own) :: (path, more) :: back)) :
    Loads first second ((path, own ++ more) :: back) where
  has := by
    intro other
    rw [loads.has]
    simp
  value := by
    rw [loads.value]
    simp [settle]

theorem value_filter (param : List (List UInt8 × List UInt8))
    (key other text : List UInt8) :
    ((param.filter (·.1 ≠ key) ++ [(key, text)]).find?
        (·.1 = other)).map Prod.snd =
      if other = key then some text
      else (param.find? (·.1 = other)).map Prod.snd := by
  rw [List.find?_append]
  split
  · next same =>
      subst same
      have none : (param.filter (·.1 ≠ other)).find? (·.1 = other) = none := by
        rw [List.find?_eq_none]
        intro entry member
        simpa using (List.mem_filter.mp member).2
      rw [none, Option.none_or, List.find?_cons_of_pos (by simp)]
      rfl
  · next apart =>
      have kept : (param.filter (·.1 ≠ key)).find? (·.1 = other) =
          param.find? (·.1 = other) := by
        rw [List.find?_filter]
        congr 1
        funext entry
        by_cases here : entry.1 = other
        · simp [here, apart]
        · simp [here]
      rw [kept, List.find?_cons_of_neg (by simpa using Ne.symm apart),
        List.find?_nil, Option.or_none]

/-- A parameter is set in a domain that is there. -/
theorem loads_set {root top new : TcConfigDomain} {path : Path}
    {key text : List UInt8} (found : root.find? path = some top)
    (subdomain : new.subdomain = top.subdomain)
    (param : new.param = top.param.filter (·.1 ≠ key) ++ [(key, text)]) :
    Loads root (root.assign path new) [(path, [(key, text)])] := by
  have changed := TcConfigDomain.contents_set found subdomain
  have there : root.contents path = some top.param := by
    rw [TcConfigDomain.contents, found]
    rfl
  constructor
  · intro other
    rw [TcConfigDomain.Has, TcConfigDomain.Has, changed]
    by_cases same : other = path
    · subst same
      rw [Function.update_self, there]
      simp
    · rw [Function.update_of_ne same]
      simp [same]
  · funext spot
    obtain ⟨other, name⟩ := spot
    have one : overwrite (settle [(path, [(key, text)])]) root.valueAt =
        Function.update root.valueAt (path, key) (some text) := rfl
    rw [one, TcConfigDomain.valueAt, changed]
    by_cases same : other = path
    · subst same
      rw [Function.update_self, Option.bind_some, param, value_filter]
      by_cases own : name = key
      · rw [if_pos own, own, Function.update_self]
      · have apart : (other, name) ≠ (other, key) := fun equal =>
          own (congrArg Prod.snd equal)
        rw [if_neg own, Function.update_of_ne apart, TcConfigDomain.valueAt,
          there, Option.bind_some]
    · have apart : (other, name) ≠ (path, key) := fun equal =>
        same (congrArg Prod.fst equal)
      rw [Function.update_of_ne same, Function.update_of_ne apart,
        TcConfigDomain.valueAt]

theorem loads_add {root top : TcConfigDomain} {path : Path}
    (found : root.find? path = some top) (name : List UInt8) :
    Loads root (root.assign path (top.addSubDomain name))
      [(path ++ [name], [])] := by
  have changed := TcConfigDomain.contents_add found name
  constructor
  · intro other
    rw [TcConfigDomain.Has, TcConfigDomain.Has, changed]
    by_cases same : other = path ++ [name]
    · rw [same, Function.update_self]
      simp
    · rw [Function.update_of_ne same]
      simp [same]
  · funext spot
    have none : overwrite (settle [(path ++ [name], [])]) root.valueAt =
        root.valueAt := rfl
    rw [none, TcConfigDomain.valueAt, changed, TcConfigDomain.valueAt]
    by_cases same : spot.1 = path ++ [name]
    · rw [same, Function.update_self]
      cases root.contents (path ++ [name]) <;> rfl
    · rw [Function.update_of_ne same]

end Loads

open TcConfigDomain

/-- The name and the parameters of a domain whose lines can be read back. -/
structure Readable (name : List UInt8)
    (param : List (List UInt8 × List UInt8)) : Prop where
  plain : Plain name
  unspaced : Unspaced name
  opens : name.head? ≠ some 47
  param : ∀ entry ∈ param, Plain entry.1 ∧ Settled entry

mutual

/-- The domains as they are read back, with what is set in them. -/
def TcConfigDomain.printed (path : Path) :
    TcConfigDomain → List (Path × List (List UInt8 × List UInt8))
  | .mk name param subdomain _ =>
      (path ++ [escapes name], param.filterMap written) ::
        printedAll (path ++ [escapes name]) subdomain

def TcConfigDomain.printedAll (path : Path) :
    List (List UInt8 × TcConfigDomain) →
      List (Path × List (List UInt8 × List UInt8))
  | [] => []
  | (_, domain) :: rest => domain.printed path ++ printedAll path rest

end

section Steps

variable {root : TcConfigDomain} {path : Path} {stack : List Path} {i : Nat}

/-- The lines have been parsed, and the same domains are open. -/
def Parses (root : TcConfigDomain) (stack : List Path)
    (lines : List (List UInt8))
    (entries : List (Path × List (List UInt8 × List UInt8))) : Prop :=
  ∃ after, lines.foldlM Parser.parseLine ⟨root, stack⟩ = .ok ⟨after, stack⟩ ∧
    after.WellNamed ∧ Loads root after entries

theorem Parses.append {front back : List (List UInt8)}
    {entries more : List (Path × List (List UInt8 × List UInt8))}
    (one : Parses root stack front entries)
    (two : ∀ second, second.WellNamed → Loads root second entries →
      Parses second stack back more) :
    Parses root stack (front ++ back) (entries ++ more) := by
  obtain ⟨second, run, wellNamed, loads⟩ := one
  obtain ⟨third, run', wellNamed', loads'⟩ := two second wellNamed loads
  refine ⟨third, ?_, wellNamed', loads.trans loads'⟩
  rw [List.foldlM_append, run, ok_bind, run']

theorem Parses.merge {lines : List (List UInt8)}
    {own more : List (List UInt8 × List UInt8)}
    {entries : List (Path × List (List UInt8 × List UInt8))}
    (parses : Parses root stack lines
      ((path, own) :: (path, more) :: entries)) :
    Parses root stack lines ((path, own ++ more) :: entries) := by
  obtain ⟨after, run, wellNamed, loads⟩ := parses
  exact ⟨after, run, wellNamed, loads.merge⟩

theorem parses_param {entry : List UInt8 × List UInt8}
    (wellNamed : root.WellNamed) (has : root.Has path)
    (plain : Plain entry.1) (settled : Settled entry) :
    Parses root (path :: stack) [paramLine i entry]
      [(path, (written entry).toList)] := by
  obtain ⟨top, found⟩ := has_iff.mp has
  have one (parser parser' : Parser) (line : List UInt8)
      (step : parser.parseLine line = .ok parser') :
      [line].foldlM Parser.parseLine parser = .ok parser' := by
    rw [List.foldlM_cons, step, ok_bind]
    rfl
  rcases @parseLine_param root top path stack i entry found settled.key
    settled.value plain settled.comment with
    ⟨step, empty⟩ | ⟨name, text, new, step, sets, same, subdomain, param⟩
  · refine ⟨root, one _ _ _ step, wellNamed, ?_⟩
    rw [empty]
    exact ⟨fun other => by simpa using fun same => same ▸ has, rfl⟩
  · refine ⟨_, one _ _ _ step, wellNamed.replace found same ?_, ?_⟩
    · exact (wellNamed.find? found).of_subdomain subdomain
    · rw [sets]
      exact loads_set found subdomain param

theorem parses_params {entries : List (List UInt8 × List UInt8)}
    (wellNamed : root.WellNamed) (has : root.Has path)
    (readable : ∀ entry ∈ entries, Plain entry.1 ∧ Settled entry) :
    Parses root (path :: stack) (entries.map (paramLine i))
      [(path, entries.filterMap written)] := by
  induction entries generalizing root with
  | nil =>
      exact ⟨root, rfl, wellNamed,
        fun other => by simpa using fun same => same ▸ has, rfl⟩
  | cons entry entries ih =>
      obtain ⟨⟨plain, settled⟩, others⟩ := List.forall_mem_cons.mp readable
      have one := @parses_param root path stack i entry wellNamed has plain
        settled
      have both := one.append fun second wellNamed' loads =>
        ih wellNamed' ((loads.has path).mpr (.inl has)) others
      have settings : (written entry).toList ++ entries.filterMap written =
          (entry :: entries).filterMap written := by
        rw [List.filterMap_cons]
        cases written entry <;> rfl
      rw [← settings]
      exact both.merge

mutual

theorem parses_lines (domain : TcConfigDomain) {root : TcConfigDomain}
    {path : Path} (stack : List Path) (i : Nat)
    (wellNamed : root.WellNamed) (has : root.Has path)
    (readable : Everywhere Readable domain) :
    Parses root (path :: stack) (domain.lines i) (domain.printed path) := by
  cases domain with
  | mk name param subdomain line =>
      obtain ⟨⟨plain, unspaced, opens, params⟩, below⟩ :=
        everywhere_mk.mp readable
      obtain ⟨top, found⟩ := has_iff.mp has
      have opening := @parseLine_opening root top path stack name i found plain
        opens
      have added := loads_add found (escapes name)
      have wellNamed' := wellNamed.replace found (name_addSubDomain ..)
        ((wellNamed.find? found).addSubDomain (escapes name))
      have has' := (added.has (path ++ [escapes name])).mpr
        (.inr List.mem_cons_self)
      have inside := (@parses_params _ _ (path :: stack) i param wellNamed'
        has' params).append fun second wellNamed'' loads =>
          parses_linesAll subdomain (path :: stack) (i + 1) wellNamed''
            ((loads.has _).mpr (.inl has')) below
      obtain ⟨second, run, wellNamed'', loads⟩ := inside
      obtain ⟨own, found'⟩ := has_iff.mp ((loads.has _).mpr (.inl has'))
      have named : own.name = escapes name := by
        rw [wellNamed''.name_eq found', trim_eq_iff.mpr unspaced.framed]
      have closing := @parseLine_closing second own _ (path :: stack) name i
        found' named plain
      refine ⟨second, ?_, wellNamed'', (added.trans loads).merge⟩
      rw [lines, List.foldlM_cons, opening, ok_bind, ← List.append_assoc,
        List.foldlM_append, run, ok_bind, List.foldlM_cons, closing, ok_bind]
      rfl

theorem parses_linesAll (entries : List (List UInt8 × TcConfigDomain))
    {root : TcConfigDomain} {path : Path} (stack : List Path) (i : Nat)
    (wellNamed : root.WellNamed) (has : root.Has path)
    (readable : ∀ entry ∈ entries, Everywhere Readable entry.2) :
    Parses root (path :: stack) (linesAll i entries)
      (printedAll path entries) := by
  cases entries with
  | nil => exact ⟨root, rfl, wellNamed, Loads.refl⟩
  | cons entry rest =>
      obtain ⟨key, domain⟩ := entry
      obtain ⟨first, others⟩ := List.forall_mem_cons.mp readable
      have one := parses_lines domain stack i wellNamed has first
      have both := one.append fun second wellNamed' loads =>
        parses_linesAll rest stack i wellNamed'
          ((loads.has path).mpr (.inl has)) others
      exact both

end

end Steps

end TarsCpp.Config
