import TarsCpp.Config.Printable

/-!
# The normal form of a configuration

A tree that comes back from being printed and parsed is printable.  Its paths
are a finite set that printing maps onto itself, and no name gets shorter.
-/

namespace TarsCpp.Config

open CString Nesting Overwriting TcConfigDomain

section Necessary

variable {root again : TcConfigDomain} {path : Path}

theorem settled_of_mem_domains (parsed : Parsed root)
    {domain : TcConfigDomain} (member : (path, domain) ∈ domains root) :
    ∀ entry ∈ domain.param, Settled entry := by
  cases parsed.find? ((mem_domains parsed).mp member).2 with
  | mk _ settled _ _ => exact settled

/-- What is printed can be read back once it is accepted. -/
theorem readable_of_accepted (parsed : Parsed root)
    (wellNamed : root.WellNamed)
    (writable : ∀ entry ∈ root.getDomainMap, Everywhere Writable entry.2)
    (read : parseString (unlines (linesAll 0 root.getDomainMap)) = .ok again) :
    ∀ entry ∈ root.getDomainMap, Everywhere Readable entry.2 := by
  rw [everywhere_iff_nodesAll] at writable
  have legible : ∀ entry ∈ root.getDomainMap,
      Everywhere Legible entry.2 := by
    rw [everywhere_iff_nodesAll]
    rintro ⟨path, domain⟩ member
    obtain ⟨plain, params⟩ := writable _ member
    exact ⟨plain, fun entry inside => ⟨(params entry inside).1,
      settled_of_mem_domains parsed member entry inside⟩⟩
  have nested := (parseString_ok_iff _).mp ⟨again, read⟩
  rw [tokens, getlines_unlines (whole_linesAll _ 0)] at nested
  have opens := (count_linesAll _ 0 legible).2 nested.countP_eq
  rw [everywhere_iff_nodesAll] at legible opens ⊢
  rintro ⟨path, domain⟩ member
  obtain ⟨plain, params⟩ := legible _ member
  obtain ⟨front, key, _, named⟩ := name_of_mem_domains parsed wellNamed member
  refine ⟨plain, ?_, opens _ member, params⟩
  dsimp only
  rw [named]
  exact (trim_eq_iff.mp (trim_trim key)).unspaced

/-- What the printed text of a tree in normal form is parsed to. -/
structure Returns (root again : TcConfigDomain) : Prop where
  same : SameTree again root
  loads : Loads (.ofLine []) again ((domains root).map (printedNode []))
  readable : ∀ node ∈ domains root, Readable node.2.name node.2.param
  writable : ∀ node ∈ domains root, Writable node.2.name node.2.param

theorem returns_of_normalForm (parsed : Parsed root)
    (wellNamed : root.WellNamed) (normal : NormalForm root) :
    ∃ again, Returns root again := by
  obtain ⟨text, again, printed, read, same⟩ := normal
  obtain ⟨writable, rfl⟩ := (tostrAll_eq_ok_iff _ 0 text).mp printed
  have readable := readable_of_accepted parsed wellNamed writable read
  obtain ⟨after, run, _, loads⟩ := parses_linesAll root.getDomainMap [] 0
    (wellNamed_ofLine []) (has_ofLine.mpr rfl) readable
  have read' := parseString_unlines (whole_linesAll root.getDomainMap 0) run
  cases read.symm.trans read'
  rw [printed_domains wellNamed] at loads
  exact ⟨again, same, loads, (everywhere_iff_nodesAll _).mp readable,
    (everywhere_iff_nodesAll _).mp writable⟩

theorem Returns.settled (returns : Returns root again)
    {key value : List UInt8}
    (found : root.valueAt (path, key) = some value) :
    ∃ domain, (path, domain) ∈ (domains root).map (printedNode []) ∧
      (key, value) ∈ domain := by
  have there := (returns.same.value (path, key)).trans found
  rw [returns.loads.value] at there
  rcases overwrite_cases (settle ((domains root).map (printedNode [])))
      (TcConfigDomain.ofLine []).valueAt (path, key) with
    ⟨value', member, here⟩ | ⟨_, nothing⟩
  · rw [here] at there
    cases there
    exact mem_settle.mp member
  · rw [nothing, valueAt_ofLine] at there
    cases there

/-- The paths of the printed domains are those of the domains. -/
theorem Returns.mem_paths (returns : Returns root again)
    (parsed : Parsed root) :
    (∃ node ∈ domains root, printedPath node.1 = path) ↔
      ∃ node ∈ domains root, node.1 = path := by
  have printed : (∃ node ∈ domains root, printedPath node.1 = path) ↔
      path ∈ ((domains root).map (printedNode [])).map Prod.fst := by
    rw [List.map_map, List.mem_map]
    rfl
  have there : (∃ node ∈ domains root, node.1 = path) ↔
      path ≠ [] ∧ root.Has path := by
    rw [has_iff]
    constructor
    · rintro ⟨⟨path, domain⟩, member, rfl⟩
      obtain ⟨below, found⟩ := (mem_domains parsed).mp member
      exact ⟨below, domain, found⟩
    · rintro ⟨below, domain, found⟩
      exact ⟨(path, domain), (mem_domains parsed).mpr ⟨below, found⟩, rfl⟩
  have nonempty : path ∈ ((domains root).map (printedNode [])).map Prod.fst →
      path ≠ [] := by
    rw [← printed]
    rintro ⟨⟨path', domain⟩, member, rfl⟩ empty
    rw [printedPath, List.map_eq_nil_iff] at empty
    exact ((mem_domains parsed).mp member).1 empty
  rw [printed, there, ← returns.same.has, returns.loads.has, has_ofLine]
  constructor
  · intro member
    exact ⟨nonempty member, .inr member⟩
  · rintro ⟨below, top | member⟩
    · exact absurd top below
    · exact member

theorem Returns.outside (returns : Returns root again)
    (parsed : Parsed root) : root.param = [] := by
  rw [List.eq_nil_iff_forall_not_mem]
  rintro ⟨key, value⟩ member
  have found : root.valueAt ([], key) = some value :=
    (valueAt_eq_some_iff parsed).mpr ⟨root, rfl, member⟩
  obtain ⟨_, printed, _⟩ := returns.settled found
  obtain ⟨⟨path, domain⟩, node, same⟩ := List.mem_map.mp printed
  have empty : printedPath path = [] := congrArg Prod.fst same
  rw [printedPath, List.map_eq_nil_iff] at empty
  exact ((mem_domains parsed).mp node).1 empty

theorem escapes_length (s : List UInt8) :
    s.length ≤ (escapes s).length ∧
      ((escapes s).length = s.length →
        ∀ c ∈ s, c ∉ [92, 13, 10, 9, 61]) := by
  induction s with
  | nil => exact ⟨Nat.le_refl 0, nofun⟩
  | cons c s ih =>
      obtain ⟨longer, same⟩ := ih
      rw [escapes, List.flatMap_cons, ← escapes, List.length_append,
        List.length_cons]
      rcases escape_cases c with ⟨ordinary, printed⟩ | ⟨d, _, printed, _⟩
      · rw [printed, List.length_singleton]
        refine ⟨by omega, fun equal => ?_⟩
        rw [List.forall_mem_cons]
        exact ⟨ordinary, same (by omega)⟩
      · rw [printed]
        refine ⟨?_, fun equal => ?_⟩
        · simp only [List.length_cons, List.length_nil]
          omega
        · simp only [List.length_cons, List.length_nil] at equal
          omega

theorem flatten_escapes (path : Path) :
    (path.map escapes).flatten = escapes path.flatten := by
  induction path with
  | nil => rfl
  | cons key path ih =>
      rw [List.map_cons, List.flatten_cons, List.flatten_cons, escapes_append,
        ih]

/-- The names have no blanks at their ends and nothing to escape. -/
theorem Returns.names (returns : Returns root again) (parsed : Parsed root)
    {node : Path × TcConfigDomain} (member : node ∈ domains root)
    {key : List UInt8} (inside : key ∈ node.1) :
    trim key = key ∧ ∀ c ∈ key, c ∉ [92, 13, 10, 9, 61] := by
  have trimmed : ∀ path ∈ ((domains root).map Prod.fst).toFinset,
      ∀ key ∈ path, trim key = key := by
    intro path present key within
    obtain ⟨node', member', same⟩ :=
      List.mem_map.mp (List.mem_toFinset.mp present)
    obtain ⟨before, _, printed⟩ :=
      (returns.mem_paths parsed).mpr ⟨node', member', same⟩
    rw [← printed] at within
    obtain ⟨old, _, rfl⟩ := List.mem_map.mp within
    exact trim_eq_iff.mpr (trim_eq_iff.mp (trim_trim old)).unspaced.framed
  have image : (((domains root).map Prod.fst).toFinset).image printedPath =
      ((domains root).map Prod.fst).toFinset := by
    ext path
    simpa using @Returns.mem_paths _ _ path returns parsed
  have flat : ∀ path ∈ ((domains root).map Prod.fst).toFinset,
      (printedPath path).flatten = escapes path.flatten := by
    intro path present
    rw [← flatten_escapes, printedPath]
    refine congrArg List.flatten (List.map_congr_left fun key within => ?_)
    rw [trimmed path present key within]
  have grows : ∀ path ∈ ((domains root).map Prod.fst).toFinset,
      path.flatten.length ≤ (printedPath path).flatten.length := by
    intro path member
    rw [flat path member]
    exact (escapes_length _).1
  have equal := size_eq_of_image_eq image grows
  have here : node.1 ∈ ((domains root).map Prod.fst).toFinset := by
    rw [List.mem_toFinset]
    exact List.mem_map_of_mem member
  refine ⟨trimmed node.1 here key inside, fun c within => ?_⟩
  have same := equal node.1 here
  rw [flat node.1 here] at same
  exact (escapes_length _).2 same c (List.mem_flatten.mpr ⟨key, inside, within⟩)

/-- The name is one of a domain that has been printed. -/
theorem Returns.plainName (returns : Returns root again)
    (parsed : Parsed root) (wellNamed : root.WellNamed)
    {domain : TcConfigDomain} (found : root.find? path = some domain)
    {key : List UInt8} (inside : key ∈ path) : PlainName key := by
  obtain ⟨front, rest, rfl⟩ := List.append_of_mem inside
  rw [← List.singleton_append, ← List.append_assoc, find?_append] at found
  obtain ⟨own, found, _⟩ := Option.bind_eq_some_iff.mp found
  have member : (front ++ [key], own) ∈ domains root :=
    (mem_domains parsed).mpr ⟨by simp, found⟩
  obtain ⟨trimmed, ordinary⟩ := returns.names parsed member
    (List.mem_append_right front List.mem_cons_self)
  have readable := returns.readable _ member
  dsimp only at readable
  rw [wellNamed.name_eq found, trimmed] at readable
  refine ⟨trimmed, fun c within => ?_, readable.opens⟩
  have special := ordinary c within
  have bracket : c ≠ 60 ∧ c ≠ 62 := by
    constructor
    · rintro rfl
      exact readable.plain.1 within
    · rintro rfl
      exact readable.plain.2 within
  simp only [List.mem_cons, not_or] at special ⊢
  exact ⟨special.1, special.2.1, special.2.2.1, special.2.2.2.1,
    special.2.2.2.2.1, bracket.1, bracket.2, List.not_mem_nil⟩

theorem written_eq_some {entry result : List UInt8 × List UInt8}
    (printed : written entry = some result) :
    ¬ (result.1 = [] ∧ result.2 = []) ∧
      ¬ (result.1.getLast? = some 92 ∧ result.2 ≠ []) := by
  rw [written] at printed
  split at printed
  · cases printed
  · next visible =>
      split at printed
      · cases printed
        exact ⟨fun both => by simp at both, fun both => both.2 rfl⟩
      · next separated =>
          cases printed
          exact ⟨visible, separated⟩

theorem Returns.plainParam (returns : Returns root again)
    (parsed : Parsed root) {domain : TcConfigDomain}
    (found : root.find? path = some domain)
    {entry : List UInt8 × List UInt8} (inside : entry ∈ domain.param) :
    PlainParam entry := by
  obtain ⟨key, value⟩ := entry
  have there : root.valueAt (path, key) = some value :=
    (valueAt_eq_some_iff parsed).mpr ⟨domain, found, inside⟩
  obtain ⟨params, printed, member⟩ := returns.settled there
  obtain ⟨node, _, same⟩ := List.mem_map.mp printed
  have own : node.2.param.filterMap written = params :=
    congrArg Prod.snd same
  rw [← own] at member
  obtain ⟨entry, _, wrote⟩ := List.mem_filterMap.mp member
  obtain ⟨visible, separated⟩ := written_eq_some wrote
  have below : path ≠ [] := by
    rintro rfl
    cases found
    rw [returns.outside parsed] at inside
    cases inside
  obtain ⟨plain, plain'⟩ := (returns.writable _
    ((mem_domains parsed).mpr ⟨below, found⟩)).2 _ inside
  exact ⟨plain, plain', visible, separated⟩

end Necessary

theorem normalForm_iff_printable {root : TcConfigDomain}
    (parsed : Parsed root) (wellNamed : root.WellNamed) :
    NormalForm root ↔ Printable root := by
  constructor
  · intro normal
    obtain ⟨again, returns⟩ := returns_of_normalForm parsed wellNamed normal
    exact ⟨returns.outside parsed,
      fun _ _ found _ => returns.plainName parsed wellNamed found,
      fun _ _ found _ => returns.plainParam parsed found⟩
  · exact normalForm_of_printable parsed wellNamed

/-- Two files keep their trees in the normal form and join to the union exactly
when both of them are printable. -/
theorem normalForm_joins_iff {buffer buffer' : List UInt8}
    {root cf : TcConfigDomain} (read : parseString buffer = .ok root)
    (read' : parseString buffer' = .ok cf) :
    (NormalForm root ∧ NormalForm cf ∧ ∀ bUpdate, Joins root cf bUpdate) ↔
      Printable root ∧ Printable cf := by
  obtain ⟨parsed, wellNamed⟩ := parsed_parseString read
  obtain ⟨parsed', wellNamed'⟩ := parsed_parseString read'
  rw [normalForm_iff_printable parsed wellNamed,
    normalForm_iff_printable parsed' wellNamed']
  constructor
  · rintro ⟨first, second, _⟩
    exact ⟨first, second⟩
  · rintro ⟨first, second⟩
    exact ⟨first, second, joins_of_printable parsed wellNamed first parsed'
      wellNamed' second⟩

namespace Sample

/-- A domain with a parameter. -/
def plain : List UInt8 := ascii "<a>\nk=v\n</a>\n"

/-- The same parameter with another value, and one more. -/
def update : List UInt8 := ascii "<a>\nk=w\nn=x\n</a>\n"

/-- A parameter outside the domains. -/
def outside : List UInt8 := ascii "k=v\n"

/-- One domain `a`. -/
def treeOf (param : List (List UInt8 × List UInt8))
    (line : List (List UInt8)) : TcConfigDomain :=
  .mk [] [] [([97], .mk [97] param [] line)] []

def plainTree : TcConfigDomain :=
  treeOf [([107], [118])] [[107, 61, 118]]

def updateTree : TcConfigDomain :=
  treeOf [([107], [119]), ([110], [120])] [[107, 61, 119], [110, 61, 120]]

def outsideTree : TcConfigDomain :=
  .mk [] [([107], [118])] [] [[107, 61, 118]]

end Sample

theorem parse_plain : parseString Sample.plain = .ok Sample.plainTree := by
  rfl

theorem parse_update : parseString Sample.update = .ok Sample.updateTree := by
  rfl

theorem printable_treeOf {param : List (List UInt8 × List UInt8)}
    {line : List (List UInt8)} (parsed : Parsed (Sample.treeOf param line))
    (plain : ∀ entry ∈ param, PlainParam entry) :
    Printable (Sample.treeOf param line) := by
  refine ⟨rfl, ?_, ?_⟩
  · intro path domain found key inside
    have member := (mem_nodes parsed).mpr found
    simp [nodes, nodesAll, Sample.treeOf] at member
    rcases member with ⟨rfl, _⟩ | ⟨rfl, _⟩
    · cases inside
    · cases List.mem_singleton.mp inside
      exact ⟨by decide +kernel, by decide +kernel, by decide⟩
  · intro path domain found entry inside
    have member := (mem_nodes parsed).mpr found
    simp [nodes, nodesAll, Sample.treeOf] at member
    rcases member with ⟨_, rfl⟩ | ⟨_, rfl⟩
    · cases inside
    · exact plain entry inside

/-- Two printable files with a common key: the value of the second one wins
where it updates. -/
theorem plain_joins :
    NormalForm Sample.plainTree ∧
      Joins Sample.plainTree Sample.updateTree true ∧
      Joins Sample.plainTree Sample.updateTree false := by
  have printable : Printable Sample.plainTree := by
    refine printable_treeOf (parsed_parseString parse_plain).1 ?_
    refine List.forall_mem_singleton.mpr ?_
    exact ⟨⟨by decide, by decide⟩, ⟨by decide, by decide⟩, by decide,
      by decide⟩
  have printable' : Printable Sample.updateTree := by
    refine printable_treeOf (parsed_parseString parse_update).1 ?_
    refine List.forall_mem_cons.mpr
      ⟨?_, List.forall_mem_singleton.mpr ?_⟩ <;>
    exact ⟨⟨by decide, by decide⟩, ⟨by decide, by decide⟩, by decide,
      by decide⟩
  obtain ⟨normal, _, joins⟩ :=
    (normalForm_joins_iff parse_plain parse_update).mpr
      ⟨printable, printable'⟩
  exact ⟨normal, joins true, joins false⟩

/-- The parameter is lost. -/
theorem outside_lost :
    parseString Sample.outside = .ok Sample.outsideTree ∧
      tostr Sample.outsideTree = .ok [] ∧
      ¬ NormalForm Sample.outsideTree := by
  have printed : tostr Sample.outsideTree = .ok [] := by
    have none : Sample.outsideTree.subdomain = [] := rfl
    rw [tostr, getDomainMap, none, List.mergeSort_nil]
    rfl
  refine ⟨rfl, printed, ?_⟩
  rintro ⟨text, again, printed', read, same⟩
  cases printed.symm.trans printed'
  cases read
  exact absurd (same.value ([], [107])) (by decide)

end TarsCpp.Config
