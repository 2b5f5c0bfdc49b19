import TarsCpp.Config.ReadBack

/-!
# The domains of a tree

A domain whose name begins with a slash has an opening tag that is read as a
closing one, so that the tags of the printed text are not nested.  The other
domains come back under their paths.
-/

namespace TarsCpp.Config

open Nesting TcConfigDomain

/-- What is known of a domain that could be printed. -/
structure Legible (name : List UInt8)
    (param : List (List UInt8 × List UInt8)) : Prop where
  plain : Plain name
  param : ∀ entry ∈ param, Plain entry.1 ∧ Settled entry

def Opens (name : List UInt8) (_ : List (List UInt8 × List UInt8)) : Prop :=
  name.head? ≠ some 47

theorem token_tag {i : Nat} {body : List UInt8} (plain : 62 ∉ body) :
    (token (indent i ++ (60 :: body ++ [62]))).isOpening =
        decide (body.head? ≠ some 47) ∧
      (token (indent i ++ (60 :: body ++ [62]))).isClosing =
        decide (body.head? = some 47) := by
  have second : (60 :: body ++ [62])[1]? = some 47 ↔ body.head? = some 47 := by
    cases body with
    | nil => simp
    | cons c rest => simp
  rw [token, trim_line (framed_tag body), List.cons_append]
  dsimp only
  rw [if_neg (by decide), if_pos rfl, ← List.cons_append, find_bracket plain]
  dsimp only
  by_cases slash : body.head? = some 47
  · rw [if_pos (second.mpr slash)]
    simp [slash, Tag.isOpening, Tag.isClosing]
  · rw [if_neg (mt second.mp slash)]
    simp [slash, Tag.isOpening, Tag.isClosing]

theorem token_paramLine {i : Nat} {entry : List UInt8 × List UInt8}
    (plain : Plain entry.1) (settled : Settled entry) :
    ∃ item, token (paramLine i entry) = .leaf item := by
  rw [token, trim_paramLine settled.key settled.value]
  cases shape : paramText entry with
  | nil => exact ⟨.blank, rfl⟩
  | cons first rest =>
      have bracket : first ≠ 60 := fun same => plain.1
        (List.mem_of_mem_head? (head_paramText (by decide) (same ▸ shape)))
      dsimp only
      rw [if_neg bracket]
      split
      · exact ⟨_, rfl⟩
      · split
        · exact ⟨_, rfl⟩
        · exact ⟨_, rfl⟩

def openings (lines : List (List UInt8)) : Nat :=
  (lines.map token).countP Tag.isOpening

def closings (lines : List (List UInt8)) : Nat :=
  (lines.map token).countP Tag.isClosing

theorem openings_append (front back : List (List UInt8)) :
    openings (front ++ back) = openings front + openings back := by
  rw [openings, List.map_append, List.countP_append, openings, openings]

theorem closings_append (front back : List (List UInt8)) :
    closings (front ++ back) = closings front + closings back := by
  rw [closings, List.map_append, List.countP_append, closings, closings]

theorem count_params {i : Nat} {entries : List (List UInt8 × List UInt8)}
    (legible : ∀ entry ∈ entries, Plain entry.1 ∧ Settled entry) :
    openings (entries.map (paramLine i)) = 0 ∧
      closings (entries.map (paramLine i)) = 0 := by
  have leaf : ∀ tag ∈ (entries.map (paramLine i)).map token,
      ∃ item, tag = .leaf item := by
    simp only [List.forall_mem_map]
    intro entry member
    exact token_paramLine (legible entry member).1 (legible entry member).2
  rw [openings, closings, List.countP_eq_zero, List.countP_eq_zero]
  constructor
  · intro tag member
    obtain ⟨item, rfl⟩ := leaf tag member
    exact Bool.false_ne_true
  · intro tag member
    obtain ⟨item, rfl⟩ := leaf tag member
    exact Bool.false_ne_true

theorem count_opening {i : Nat} {name : List UInt8} (plain : Plain name) :
    openings [openingLine i name] =
        (if name.head? = some 47 then 0 else 1) ∧
      closings [openingLine i name] =
        if name.head? = some 47 then 1 else 0 := by
  obtain ⟨opens, closes⟩ := @token_tag i _ (plain_escapes plain)
  have same := @head_escapes name 47 (by decide)
  simp only [openings, closings, openingLine, List.map_singleton,
    List.countP_singleton, opens, closes, same]
  constructor
  · split <;> simp_all
  · split <;> simp_all

theorem count_closing {i : Nat} {name : List UInt8} (plain : Plain name) :
    openings [closingLine i name] = 0 ∧
      closings [closingLine i name] = 1 := by
  have body : 62 ∉ 47 :: escapes name := by
    rw [List.mem_cons, not_or]
    exact ⟨by decide, plain_escapes plain⟩
  obtain ⟨opens, closes⟩ := @token_tag i _ body
  have line : closingLine i name =
      indent i ++ (60 :: (47 :: escapes name) ++ [62]) := rfl
  simp only [openings, closings, List.map_singleton, List.countP_singleton,
    line, opens, closes]
  simp

mutual

/-- There are never more opening tags than closing ones, and as many only if no
name begins with a slash. -/
theorem count_lines (domain : TcConfigDomain) (i : Nat)
    (legible : Everywhere Legible domain) :
    openings (domain.lines i) ≤ closings (domain.lines i) ∧
      (openings (domain.lines i) = closings (domain.lines i) →
        Everywhere Opens domain) := by
  cases domain with
  | mk name param subdomain line =>
      obtain ⟨⟨plain, params⟩, below⟩ := everywhere_mk.mp legible
      obtain ⟨opening, opening'⟩ := @count_opening i name plain
      obtain ⟨closing, closing'⟩ := @count_closing i name plain
      obtain ⟨settings, settings'⟩ := @count_params i param params
      obtain ⟨fewer, same⟩ := count_linesAll subdomain (i + 1) below
      rw [lines, ← List.singleton_append, openings_append, openings_append,
        openings_append, closings_append, closings_append, closings_append,
        opening, opening', closing, closing', settings, settings']
      constructor
      · split <;> omega
      · intro equal
        split at equal
        · omega
        · next opens => exact .mk opens (same (by omega))

theorem count_linesAll (entries : List (List UInt8 × TcConfigDomain))
    (i : Nat) (legible : ∀ entry ∈ entries, Everywhere Legible entry.2) :
    openings (linesAll i entries) ≤ closings (linesAll i entries) ∧
      (openings (linesAll i entries) = closings (linesAll i entries) →
        ∀ entry ∈ entries, Everywhere Opens entry.2) := by
  cases entries with
  | nil =>
      refine ⟨Nat.le_refl 0, fun _ entry member => ?_⟩
      exact absurd member List.not_mem_nil
  | cons entry rest =>
      obtain ⟨key, domain⟩ := entry
      obtain ⟨first, others⟩ := List.forall_mem_cons.mp legible
      obtain ⟨fewer, same⟩ := count_lines domain i first
      obtain ⟨fewer', same'⟩ := count_linesAll rest i others
      rw [linesAll, openings_append, closings_append, List.forall_mem_cons]
      refine ⟨Nat.add_le_add fewer fewer', fun equal => ⟨same ?_, same' ?_⟩⟩
      · omega
      · omega

end

open Overwriting

mutual

/-- The domains of a tree with the paths that lead to them. -/
def TcConfigDomain.nodes : TcConfigDomain → List (Path × TcConfigDomain)
  | .mk name param subdomain line =>
      ([], .mk name param subdomain line) :: nodesAll subdomain

def TcConfigDomain.nodesAll : List (List UInt8 × TcConfigDomain) →
    List (Path × TcConfigDomain)
  | [] => []
  | (key, domain) :: rest =>
      domain.nodes.map (fun node => (key :: node.1, node.2)) ++ nodesAll rest

end

/-- The path at which a domain is read back. -/
def printedPath (path : Path) : Path := path.map fun key => escapes (trim key)

theorem mem_nodesAll {entries : List (List UInt8 × TcConfigDomain)}
    {path : Path} {target : TcConfigDomain} :
    (path, target) ∈ nodesAll entries ↔ ∃ entry ∈ entries, ∃ rest,
      (rest, target) ∈ entry.2.nodes ∧ path = entry.1 :: rest := by
  induction entries with
  | nil => simp [nodesAll]
  | cons entry entries ih =>
      obtain ⟨key, domain⟩ := entry
      rw [nodesAll, List.mem_append, ih]
      constructor
      · rintro (here | ⟨entry, member, found⟩)
        · obtain ⟨⟨rest, other⟩, inside, same⟩ := List.mem_map.mp here
          cases same
          exact ⟨(key, domain), List.mem_cons_self, rest, inside, rfl⟩
        · exact ⟨entry, List.mem_cons_of_mem _ member, found⟩
      · rintro ⟨entry, member, rest, inside, rfl⟩
        rcases List.mem_cons.mp member with rfl | behind
        · exact .inl (List.mem_map.mpr ⟨(rest, target), inside, rfl⟩)
        · exact .inr ⟨entry, behind, rest, inside, rfl⟩

theorem find?_of_mem {β : Type} {entries : List (List UInt8 × β)}
    {key : List UInt8} {value : β} (distinct : (entries.map Prod.fst).Nodup)
    (member : (key, value) ∈ entries) :
    entries.find? (·.1 = key) = some (key, value) := by
  induction entries with
  | nil => cases member
  | cons entry entries ih =>
      obtain ⟨fresh, distinct⟩ := List.nodup_cons.mp distinct
      rcases List.mem_cons.mp member with rfl | behind
      · exact List.find?_cons_of_pos (by simp)
      · have other : entry.1 ≠ key := by
          rintro rfl
          exact fresh (List.mem_map.mpr ⟨_, behind, rfl⟩)
        rw [List.find?_cons_of_neg (by simpa using other)]
        exact ih distinct behind

theorem child_eq_some_iff {domain target : TcConfigDomain}
    {key : List UInt8} (parsed : Parsed domain) :
    domain.child key = some target ↔ (key, target) ∈ domain.subdomain := by
  constructor
  · exact mem_of_child
  · intro member
    have distinct : (domain.subdomain.map Prod.fst).Nodup := by
      cases parsed with
      | mk _ _ domains _ => exact domains
    rw [child, find?_of_mem distinct member]
    rfl

theorem mem_nodes {domain target : TcConfigDomain} {path : Path}
    (parsed : Parsed domain) :
    (path, target) ∈ domain.nodes ↔ domain.find? path = some target := by
  induction path generalizing domain with
  | nil =>
      obtain ⟨name, param, subdomain, line⟩ := domain
      rw [nodes, List.mem_cons, find?, Option.some_inj]
      constructor
      · rintro (here | behind)
        · exact (congrArg Prod.snd here).symm
        · obtain ⟨entry, _, rest, _, same⟩ := mem_nodesAll.mp behind
          cases same
      · rintro rfl
        exact .inl rfl
  | cons key path ih =>
      have children : (key :: path, target) ∈ domain.nodes ↔
          (key :: path, target) ∈ nodesAll domain.subdomain := by
        obtain ⟨name, param, subdomain, line⟩ := domain
        rw [nodes, List.mem_cons]
        exact or_iff_right fun same => by cases same
      rw [children, mem_nodesAll, find?]
      constructor
      · rintro ⟨⟨key', child⟩, member, rest, inside, same⟩
        cases same
        have here := (child_eq_some_iff parsed).mpr member
        refine Option.bind_eq_some_iff.mpr ⟨child, here, ?_⟩
        exact (ih (parsed.child here)).mp inside
      · intro found
        obtain ⟨child, here, later⟩ := Option.bind_eq_some_iff.mp found
        refine ⟨(key, child), (child_eq_some_iff parsed).mp here, path, ?_,
          rfl⟩
        exact (ih (parsed.child here)).mpr later

/-- The domains below the root, in the order in which they are printed. -/
def domains (root : TcConfigDomain) : List (Path × TcConfigDomain) :=
  nodesAll root.getDomainMap

theorem mem_getDomainMap {root : TcConfigDomain}
    {entry : List UInt8 × TcConfigDomain} :
    entry ∈ root.getDomainMap ↔ entry ∈ root.subdomain :=
  (List.mergeSort_perm _ _).mem_iff

theorem mem_domains {root target : TcConfigDomain} {path : Path}
    (parsed : Parsed root) :
    (path, target) ∈ domains root ↔
      path ≠ [] ∧ root.find? path = some target := by
  rw [domains, mem_nodesAll]
  simp only [mem_getDomainMap]
  rw [← mem_nodesAll, ← mem_nodes parsed]
  obtain ⟨name, param, subdomain, line⟩ := root
  rw [nodes, List.mem_cons]
  constructor
  · intro member
    refine ⟨?_, .inr member⟩
    rintro rfl
    obtain ⟨entry, _, rest, _, same⟩ := mem_nodesAll.mp member
    cases same
  · rintro ⟨nonempty, here | behind⟩
    · exact absurd (congrArg Prod.fst here) nonempty
    · exact behind

/-- An entry of the printed tree for a domain. -/
def printedNode (path : Path) (node : Path × TcConfigDomain) :
    Path × List (List UInt8 × List UInt8) :=
  (path ++ printedPath node.1, node.2.param.filterMap written)

mutual

theorem printed_eq (domain : TcConfigDomain) (path : Path) (key : List UInt8)
    (wellNamed : domain.WellNamed) (named : domain.name = trim key) :
    domain.printed path =
      (domain.nodes.map fun node => (key :: node.1, node.2)).map
        (printedNode path) := by
  cases domain with
  | mk name param subdomain line =>
      cases wellNamed with
      | mk named' below =>
          change name = trim key at named
          subst named
          rw [printed, nodes, List.map_cons, List.map_cons,
            printedAll_eq subdomain _ below named', List.map_map]
          congr 1
          refine List.map_congr_left fun node _ => ?_
          simp [printedNode, printedPath]

theorem printedAll_eq (entries : List (List UInt8 × TcConfigDomain))
    (path : Path)
    (wellNamed : ∀ entry ∈ entries, entry.2.WellNamed)
    (named : ∀ entry ∈ entries, entry.2.name = trim entry.1) :
    printedAll path entries = (nodesAll entries).map (printedNode path) := by
  cases entries with
  | nil => rfl
  | cons entry rest =>
      obtain ⟨key, domain⟩ := entry
      obtain ⟨here, others⟩ := List.forall_mem_cons.mp wellNamed
      obtain ⟨here', others'⟩ := List.forall_mem_cons.mp named
      rw [printedAll, nodesAll, List.map_append,
        printed_eq domain path key here here',
        printedAll_eq rest path others others']

end

mutual

theorem everywhere_iff_nodes
    {holds : List UInt8 → List (List UInt8 × List UInt8) → Prop}
    (domain : TcConfigDomain) :
    Everywhere holds domain ↔
      ∀ node ∈ domain.nodes, holds node.2.name node.2.param := by
  cases domain with
  | mk name param subdomain line =>
      rw [everywhere_mk, nodes, List.forall_mem_cons,
        everywhere_iff_nodesAll subdomain]
      rfl

theorem everywhere_iff_nodesAll
    {holds : List UInt8 → List (List UInt8 × List UInt8) → Prop}
    (entries : List (List UInt8 × TcConfigDomain)) :
    (∀ entry ∈ entries, Everywhere holds entry.2) ↔
      ∀ node ∈ nodesAll entries, holds node.2.name node.2.param := by
  cases entries with
  | nil => exact iff_of_true nofun nofun
  | cons entry rest =>
      obtain ⟨key, domain⟩ := entry
      rw [nodesAll, List.forall_mem_append, List.forall_mem_map,
        List.forall_mem_cons, everywhere_iff_nodes domain,
        everywhere_iff_nodesAll rest]

end

end TarsCpp.Config
