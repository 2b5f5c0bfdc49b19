import TarsCpp.Config.Nodes

/-!
# Which trees are printed and read back
-/

namespace TarsCpp.Config

open Overwriting TcConfigDomain

/-- A name that is printed and read back as it is. -/
structure PlainName (key : List UInt8) : Prop where
  trimmed : trim key = key
  ordinary : ∀ c ∈ key, c ∉ [92, 13, 10, 9, 61, 60, 62]
  opens : key.head? ≠ some 47

/-- A parameter that is printed and read back as it is. -/
structure PlainParam (entry : List UInt8 × List UInt8) : Prop where
  key : Plain entry.1
  value : Plain entry.2
  visible : ¬ (entry.1 = [] ∧ entry.2 = [])
  separated : ¬ (entry.1.getLast? = some 92 ∧ entry.2 ≠ [])

/-- No parameter stands outside the domains, and all names and parameters are
plain. -/
structure Printable (root : TcConfigDomain) : Prop where
  outside : root.param = []
  names : ∀ path domain, root.find? path = some domain →
    ∀ key ∈ path, PlainName key
  params : ∀ path domain, root.find? path = some domain →
    ∀ entry ∈ domain.param, PlainParam entry

/-- The same domains, with the same keys and values. -/
structure SameTree (root other : TcConfigDomain) : Prop where
  has : ∀ path, root.Has path ↔ other.Has path
  value : ∀ spot, root.valueAt spot = other.valueAt spot

/-- The tree is printed, and the text is parsed to the same tree. -/
def NormalForm (root : TcConfigDomain) : Prop :=
  ∃ text again, tostr root = .ok text ∧ parseString text = .ok again ∧
    SameTree again root

/-- The union of the trees, where the values of the second one win. -/
structure Union (root other joined : TcConfigDomain) : Prop where
  has : ∀ path, joined.Has path ↔ root.Has path ∨ other.Has path
  value : ∀ spot,
    joined.valueAt spot = (other.valueAt spot).or (root.valueAt spot)

/-- `joinConfig` makes the union. -/
def Joins (root cf : TcConfigDomain) (bUpdate : Bool) : Prop :=
  ∃ joined, joinConfig root cf bUpdate = .ok joined ∧
    if bUpdate then Union root cf joined else Union cf root joined

section Sufficient

variable {root before after : TcConfigDomain}

theorem PlainName.escapes_eq {key : List UInt8} (plain : PlainName key) :
    escapes (trim key) = key := by
  rw [plain.trimmed, escapes]
  have single : ∀ c ∈ key, escape c = [c] := by
    intro c member
    have ordinary := plain.ordinary c member
    simp only [List.mem_cons, not_or] at ordinary
    obtain ⟨slash, cr, lf, tab, sign, _⟩ := ordinary
    rw [escape, if_neg slash, if_neg cr, if_neg lf, if_neg tab, if_neg sign]
  rw [List.flatMap_congr single, List.flatMap_singleton']

theorem PlainParam.written_eq {entry : List UInt8 × List UInt8}
    (plain : PlainParam entry) : written entry = some entry := by
  rw [written, if_neg plain.visible, if_neg plain.separated]

theorem mem_settle {entries : List (Path × List (List UInt8 × List UInt8))}
    {path : Path} {key value : List UInt8} :
    ((path, key), value) ∈ settle entries ↔
      ∃ params, (path, params) ∈ entries ∧ (key, value) ∈ params := by
  rw [settle, List.mem_flatMap]
  constructor
  · rintro ⟨⟨path', params⟩, member, inside⟩
    obtain ⟨⟨key', value'⟩, found, same⟩ := List.mem_map.mp inside
    cases same
    exact ⟨params, member, found⟩
  · rintro ⟨params, member, found⟩
    exact ⟨_, member, List.mem_map.mpr ⟨_, found, rfl⟩⟩

theorem valueAt_eq_some_iff (parsed : Parsed root) {path : Path}
    {key value : List UInt8} :
    root.valueAt (path, key) = some value ↔
      ∃ domain, root.find? path = some domain ∧
        (key, value) ∈ domain.param := by
  rw [valueAt, contents]
  cases found : root.find? path with
  | none => simp
  | some domain =>
      have distinct : (domain.param.map Prod.fst).Nodup := by
        cases parsed.find? found with
        | mk params _ _ _ => exact params
      rw [Option.map_some, Option.bind_some]
      constructor
      · intro here
        obtain ⟨entry, search, rfl⟩ := Option.map_eq_some_iff.mp here
        have same : entry.1 = key := by simpa using List.find?_some search
        rw [← same]
        exact ⟨domain, rfl, List.mem_of_find?_eq_some search⟩
      · rintro ⟨_, same, member⟩
        cases same
        rw [find?_of_mem distinct member]
        rfl

/-- The parameters of the domains below the root. -/
theorem mem_settle_domains (parsed : Parsed root) (outside : root.param = [])
    {path : Path} {key value : List UInt8} :
    ((path, key), value) ∈
        settle ((domains root).map fun node => (node.1, node.2.param)) ↔
      root.valueAt (path, key) = some value := by
  rw [mem_settle, valueAt_eq_some_iff parsed]
  constructor
  · rintro ⟨params, member, found⟩
    obtain ⟨⟨path', domain⟩, node, same⟩ := List.mem_map.mp member
    cases same
    exact ⟨domain, ((mem_domains parsed).mp node).2, found⟩
  · rintro ⟨domain, found, member⟩
    have below : path ≠ [] := by
      rintro rfl
      cases found
      rw [outside] at member
      cases member
    exact ⟨domain.param, List.mem_map.mpr
      ⟨(path, domain), (mem_domains parsed).mpr ⟨below, found⟩, rfl⟩, member⟩

/-- Parsing a plain tree adds it. -/
theorem union_of_loads (parsed : Parsed root) (outside : root.param = [])
    (has : before.Has [])
    (loads : Loads before after
      ((domains root).map fun node => (node.1, node.2.param))) :
    Union before root after where
  has := by
    intro path
    rw [loads.has, List.map_map]
    constructor
    · rintro (here | member)
      · exact .inl here
      · obtain ⟨⟨path', domain⟩, node, rfl⟩ := List.mem_map.mp member
        exact .inr (has_iff.mpr ⟨domain, ((mem_domains parsed).mp node).2⟩)
    · rintro (here | there)
      · exact .inl here
      · by_cases top : path = []
        · rw [top]
          exact .inl has
        · obtain ⟨domain, found⟩ := has_iff.mp there
          exact .inr (List.mem_map.mpr
            ⟨(path, domain), (mem_domains parsed).mpr ⟨top, found⟩, rfl⟩)
  value := by
    rintro ⟨path, key⟩
    rw [loads.value]
    refine overwrite_eq_or ?_ _ _
    rintro ⟨path', key'⟩ value
    exact mem_settle_domains parsed outside

/-- The name of a domain below the root. -/
theorem name_of_mem_domains (parsed : Parsed root)
    (wellNamed : root.WellNamed) {path : Path} {domain : TcConfigDomain}
    (member : (path, domain) ∈ domains root) :
    ∃ front key, path = front ++ [key] ∧ domain.name = trim key := by
  obtain ⟨below, found⟩ := (mem_domains parsed).mp member
  rcases List.eq_nil_or_concat path with top | ⟨front, key, rfl⟩
  · exact absurd top below
  · rw [List.concat_eq_append] at found
    exact ⟨front, key, List.concat_eq_append, wellNamed.name_eq found⟩

theorem printed_domains (wellNamed : root.WellNamed) :
    printedAll [] root.getDomainMap =
      (domains root).map (printedNode []) := by
  cases wellNamed with
  | mk named below =>
      refine printedAll_eq _ [] (fun entry member => ?_) fun entry member => ?_
      · exact below entry (mem_getDomainMap.mp member)
      · exact named entry (mem_getDomainMap.mp member)

theorem readable_of_printable (parsed : Parsed root)
    (wellNamed : root.WellNamed) (printable : Printable root) {path : Path}
    {domain : TcConfigDomain} (member : (path, domain) ∈ domains root) :
    Readable domain.name domain.param ∧
      ∀ entry ∈ domain.param, PlainParam entry := by
  obtain ⟨_, found⟩ := (mem_domains parsed).mp member
  obtain ⟨front, key, rfl, named⟩ :=
    name_of_mem_domains parsed wellNamed member
  have plain := printable.names _ domain found key (by simp)
  have params := printable.params _ domain found
  rw [plain.trimmed] at named
  rw [named]
  refine ⟨⟨⟨fun bracket => ?_, fun bracket => ?_⟩,
    (trim_eq_iff.mp plain.trimmed).unspaced, plain.opens, ?_⟩, params⟩
  · exact plain.ordinary 60 bracket (by decide)
  · exact plain.ordinary 62 bracket (by decide)
  · intro entry inside
    refine ⟨(params entry inside).key, ?_⟩
    cases parsed.find? found with
    | mk _ settled _ _ => exact settled entry inside

theorem parses_printable (parsed : Parsed root) (wellNamed : root.WellNamed)
    (printable : Printable root) (wellNamed' : before.WellNamed)
    (has : before.Has []) :
    Parses before [[]] (linesAll 0 root.getDomainMap)
      ((domains root).map fun node => (node.1, node.2.param)) := by
  have readable : ∀ entry ∈ root.getDomainMap,
      Everywhere Readable entry.2 := by
    rw [everywhere_iff_nodesAll]
    rintro ⟨path, domain⟩ member
    exact (readable_of_printable parsed wellNamed printable member).1
  have parses := parses_linesAll root.getDomainMap [] 0 wellNamed' has readable
  have same : printedAll [] root.getDomainMap =
      (domains root).map fun node => (node.1, node.2.param) := by
    rw [printed_domains wellNamed]
    refine List.map_congr_left fun ⟨path, domain⟩ member => ?_
    obtain ⟨_, found⟩ := (mem_domains parsed).mp member
    have path' : printedPath path = path := by
      rw [printedPath, List.map_congr_left fun key inside =>
        (printable.names path domain found key inside).escapes_eq, List.map_id']
    have params : domain.param.filterMap written = domain.param := by
      rw [List.filterMap_congr fun entry inside =>
        (printable.params path domain found entry inside).written_eq,
        List.filterMap_some]
    rw [printedNode, List.nil_append]
    dsimp only
    rw [path', params]
  rw [← same]
  exact parses

theorem parseString_unlines {lines : List (List UInt8)}
    (whole : ∀ line ∈ lines, 10 ∉ line)
    (run : lines.foldlM Parser.parseLine ⟨.ofLine [], [[]]⟩ =
      .ok ⟨after, [[]]⟩) :
    parseString (unlines lines) = .ok after := by
  rw [parseString, getlines_unlines whole, run, ok_bind,
    if_neg (by simp)]
  rfl

theorem wellNamed_ofLine (sLine : List UInt8) :
    (TcConfigDomain.ofLine sLine).WellNamed :=
  .mk (by simp) (by simp)

theorem has_ofLine {path : Path} :
    (TcConfigDomain.ofLine []).Has path ↔ path = [] := by
  cases path with
  | nil => exact iff_of_true nofun rfl
  | cons key path => exact iff_of_false (fun has => has rfl) nofun

theorem valueAt_ofLine (spot : Path × List UInt8) :
    (TcConfigDomain.ofLine []).valueAt spot = none := by
  obtain ⟨path, key⟩ := spot
  cases path with
  | nil => rfl
  | cons key path => rfl

theorem Union.of_empty (union : Union (.ofLine []) root after)
    (has : root.Has []) : SameTree after root where
  has := by
    intro path
    rw [union.has, has_ofLine, or_iff_right_of_imp]
    rintro rfl
    exact has
  value := by
    intro spot
    rw [union.value, valueAt_ofLine, Option.or_none]

theorem tostr_printable (parsed : Parsed root) (wellNamed : root.WellNamed)
    (printable : Printable root) :
    tostr root = .ok (unlines (linesAll 0 root.getDomainMap)) := by
  rw [tostr, tostrAll_eq_ok_iff, everywhere_iff_nodesAll]
  refine ⟨?_, rfl⟩
  rintro ⟨path, domain⟩ member
  obtain ⟨readable, params⟩ :=
    readable_of_printable parsed wellNamed printable member
  exact ⟨readable.plain, fun entry inside =>
    ⟨(params entry inside).key, (params entry inside).value⟩⟩

theorem normalForm_of_printable (parsed : Parsed root)
    (wellNamed : root.WellNamed) (printable : Printable root) :
    NormalForm root := by
  obtain ⟨again, run, _, loads⟩ := parses_printable parsed wellNamed printable
    (wellNamed_ofLine []) (has_ofLine.mpr rfl)
  refine ⟨_, again, tostr_printable parsed wellNamed printable,
    parseString_unlines (whole_linesAll root.getDomainMap 0) run, ?_⟩
  exact (union_of_loads parsed printable.outside (has_ofLine.mpr rfl)
    loads).of_empty (has_iff.mpr ⟨root, rfl⟩)

/-- Two plain trees printed one after the other. -/
theorem joined_of_printable {other : TcConfigDomain} (parsed : Parsed root)
    (wellNamed : root.WellNamed) (printable : Printable root)
    (parsed' : Parsed other) (wellNamed' : other.WellNamed)
    (printable' : Printable other) :
    ∃ text text' joined, tostr root = .ok text ∧ tostr other = .ok text' ∧
      parseString (text ++ text') = .ok joined ∧
      Union root other joined := by
  have start : (TcConfigDomain.ofLine []).Has [] := has_ofLine.mpr rfl
  obtain ⟨second, run, wellNamed'', loads⟩ := parses_printable parsed
    wellNamed printable (wellNamed_ofLine []) start
  have has : second.Has [] := (loads.has []).mpr (.inl start)
  obtain ⟨third, run', _, loads'⟩ := parses_printable parsed' wellNamed'
    printable' wellNamed'' has
  have first := (union_of_loads parsed printable.outside start
    loads).of_empty (has_iff.mpr ⟨root, rfl⟩)
  have union := union_of_loads parsed' printable'.outside has loads'
  refine ⟨_, _, third, tostr_printable parsed wellNamed printable,
    tostr_printable parsed' wellNamed' printable', ?_, ?_, ?_⟩
  · rw [← unlines_append]
    refine parseString_unlines (List.forall_mem_append.mpr
      ⟨whole_linesAll _ 0, whole_linesAll _ 0⟩) ?_
    rw [List.foldlM_append, run, ok_bind, run']
  · intro path
    rw [union.has, first.has]
  · intro spot
    rw [union.value, first.value]

theorem joins_of_printable {other : TcConfigDomain} (parsed : Parsed root)
    (wellNamed : root.WellNamed) (printable : Printable root)
    (parsed' : Parsed other) (wellNamed' : other.WellNamed)
    (printable' : Printable other) (bUpdate : Bool) :
    Joins root other bUpdate := by
  cases bUpdate with
  | true =>
      obtain ⟨text, text', joined, own, cf, read, union⟩ :=
        joined_of_printable parsed wellNamed printable parsed' wellNamed'
          printable'
      refine ⟨joined, ?_, union⟩
      rw [joinConfig, own, cf, ok_bind, ok_bind]
      exact read
  | false =>
      obtain ⟨text, text', joined, cf, own, read, union⟩ :=
        joined_of_printable parsed' wellNamed' printable' parsed wellNamed
          printable
      refine ⟨joined, ?_, union⟩
      rw [joinConfig, own, cf, ok_bind, ok_bind]
      exact read

end Sufficient

end TarsCpp.Config
