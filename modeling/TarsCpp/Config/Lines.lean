import TarsCpp.Config.Acceptance
import TarsCpp.Config.Escaping

/-!
# The lines of a printed configuration

What `tostr` writes line by line, and what the parser does with each line.
-/

namespace TarsCpp.Config

open CString Nesting

namespace TcConfigDomain

/-- What is true of the name and the parameters of every domain. -/
inductive Everywhere
    (holds : List UInt8 → List (List UInt8 × List UInt8) → Prop) :
    TcConfigDomain → Prop
  | mk {name : List UInt8} {param : List (List UInt8 × List UInt8)}
      {subdomain : List (List UInt8 × TcConfigDomain)}
      {line : List (List UInt8)} (here : holds name param)
      (below : ∀ entry ∈ subdomain, Everywhere holds entry.2) :
      Everywhere holds (.mk name param subdomain line)

/-- The name and the parameters have no brackets. -/
def Writable (name : List UInt8) (param : List (List UInt8 × List UInt8)) :
    Prop :=
  Plain name ∧ ∀ entry ∈ param, Plain entry.1 ∧ Plain entry.2

end TcConfigDomain

/-- The lines with their ends. -/
def unlines (lines : List (List UInt8)) : List UInt8 :=
  lines.flatMap (· ++ [10])

def indent (i : Nat) : List UInt8 := (List.replicate i (ascii "  ")).flatten

def openingLine (i : Nat) (name : List UInt8) : List UInt8 :=
  indent i ++ (60 :: escapes name ++ [62])

def closingLine (i : Nat) (name : List UInt8) : List UInt8 :=
  indent i ++ (60 :: 47 :: escapes name ++ [62])

def paramLine (i : Nat) (entry : List UInt8 × List UInt8) : List UInt8 :=
  ascii "  " ++ indent i ++ paramText entry

mutual

def TcConfigDomain.lines (i : Nat) : TcConfigDomain → List (List UInt8)
  | .mk name param subdomain _ =>
      openingLine i name :: (param.map (paramLine i) ++
        (linesAll (i + 1) subdomain ++ [closingLine i name]))

def TcConfigDomain.linesAll (i : Nat) :
    List (List UInt8 × TcConfigDomain) → List (List UInt8)
  | [] => []
  | (_, domain) :: rest => domain.lines i ++ linesAll i rest

end

theorem bind_eq_ok_iff {α β : Type} {code : Except Failure α}
    {next : α → Except Failure β} {result : β} :
    (code >>= next) = .ok result ↔
      ∃ value, code = .ok value ∧ next value = .ok result := by
  cases code with
  | ok value => simp [ok_bind]
  | error failure =>
      refine iff_of_false (fun same => ?_) (fun found => ?_)
      · cases same
      · obtain ⟨value, same, _⟩ := found
        cases same

theorem ascii_newline : ascii "\n" = [10] := by decide

theorem ascii_sign : ascii "=" = [61] := by decide

theorem tostrParam_eq_ok_iff {i : Nat} {entry : List UInt8 × List UInt8}
    {text : List UInt8} :
    tostrParam (indent i) entry = .ok text ↔
      (Plain entry.1 ∧ Plain entry.2) ∧ text = paramLine i entry ++ [10] := by
  rw [tostrParam, paramLine, paramText]
  split
  · next empty =>
      have plain : Plain entry.2 := by
        rw [empty]
        exact ⟨List.not_mem_nil, List.not_mem_nil⟩
      simp only [bind_eq_ok_iff, reverse_parse_eq_ok_iff]
      constructor
      · rintro ⟨key, ⟨plainKey, rfl⟩, same⟩
        cases same
        exact ⟨⟨plainKey, plain⟩, by simp [ascii_newline]⟩
      · rintro ⟨⟨plainKey, _⟩, rfl⟩
        refine ⟨escapes entry.1, ⟨plainKey, rfl⟩, ?_⟩
        simp [ascii_newline]
        rfl
  · simp only [bind_eq_ok_iff, reverse_parse_eq_ok_iff]
    constructor
    · rintro ⟨key, ⟨plainKey, rfl⟩, value, ⟨plainValue, rfl⟩, same⟩
      cases same
      exact ⟨⟨plainKey, plainValue⟩, by simp [ascii_newline, ascii_sign]⟩
    · rintro ⟨⟨plainKey, plainValue⟩, rfl⟩
      refine ⟨escapes entry.1, ⟨plainKey, rfl⟩, escapes entry.2,
        ⟨plainValue, rfl⟩, ?_⟩
      simp [ascii_newline, ascii_sign]
      rfl

theorem mapM_eq_ok_iff {α β : Type} {code : α → Except Failure β}
    {holds : α → Prop} {value : α → β}
    (one : ∀ item result, code item = .ok result ↔
      holds item ∧ result = value item)
    {items : List α} {results : List β} :
    items.mapM code = .ok results ↔
      (∀ item ∈ items, holds item) ∧ results = items.map value := by
  induction items generalizing results with
  | nil =>
      rw [List.mapM_nil]
      simp [pure, Except.pure, eq_comm]
  | cons item items ih =>
      rw [List.mapM_cons]
      simp only [bind_eq_ok_iff, one, ih, List.forall_mem_cons]
      constructor
      · rintro ⟨_, ⟨here, rfl⟩, _, ⟨behind, rfl⟩, same⟩
        cases same
        exact ⟨⟨here, behind⟩, rfl⟩
      · rintro ⟨⟨here, behind⟩, rfl⟩
        exact ⟨_, ⟨here, rfl⟩, _, ⟨behind, rfl⟩, rfl⟩

theorem unlines_cons (line : List UInt8) (lines : List (List UInt8)) :
    unlines (line :: lines) = line ++ [10] ++ unlines lines :=
  List.flatMap_cons

theorem unlines_append (front back : List (List UInt8)) :
    unlines (front ++ back) = unlines front ++ unlines back :=
  List.flatMap_append

theorem tags : ascii "<" = [60] ∧ ascii ">\n" = [62, 10] ∧
    ascii "</" = [60, 47] := by
  decide

namespace TcConfigDomain

theorem everywhere_mk
    {holds : List UInt8 → List (List UInt8 × List UInt8) → Prop}
    {name : List UInt8} {param : List (List UInt8 × List UInt8)}
    {subdomain : List (List UInt8 × TcConfigDomain)}
    {line : List (List UInt8)} :
    Everywhere holds (.mk name param subdomain line) ↔
      holds name param ∧ ∀ entry ∈ subdomain, Everywhere holds entry.2 := by
  constructor
  · rintro (⟨here, below⟩)
    exact ⟨here, below⟩
  · rintro ⟨here, below⟩
    exact .mk here below

mutual

theorem tostr_eq_ok_iff (domain : TcConfigDomain) (i : Nat)
    (text : List UInt8) :
    domain.tostr i = .ok text ↔
      Everywhere Writable domain ∧ text = unlines (domain.lines i) := by
  cases domain with
  | mk name param subdomain line =>
      have one (entry : List UInt8 × List UInt8) (result : List UInt8) :=
        @tostrParam_eq_ok_iff i entry result
      have params (results : List (List UInt8)) :=
        @mapM_eq_ok_iff _ _ _ _ _ one param results
      have whole : indent i ++ ascii "<" ++ escapes name ++ ascii ">\n" ++
          (param.map fun entry => paramLine i entry ++ [10]).flatten ++
          unlines (linesAll (i + 1) subdomain) ++ indent i ++ ascii "</" ++
          escapes name ++ ascii ">\n" =
          unlines (lines i (.mk name param subdomain line)) := by
        have written : unlines (param.map (paramLine i)) =
            (param.map fun entry => paramLine i entry ++ [10]).flatten := by
          rw [unlines, List.flatMap_map, List.flatMap_def]
        rw [lines, unlines_cons, unlines_append, unlines_append, written,
          unlines_cons, openingLine, closingLine, tags.1, tags.2.1, tags.2.2]
        simp [unlines]
      have domains := tostrAll_eq_ok_iff subdomain (i + 1)
      rw [tostr, ← indent, everywhere_mk, Writable]
      simp only [bind_eq_ok_iff, reverse_parse_eq_ok_iff, params, domains]
      constructor
      · rintro ⟨_, ⟨plain, rfl⟩, _, ⟨plains, rfl⟩, _, ⟨below, rfl⟩,
          _, ⟨_, rfl⟩, same⟩
        cases same
        refine ⟨⟨⟨plain, plains⟩, below⟩, ?_⟩
        exact whole
      · rintro ⟨⟨⟨plain, plains⟩, below⟩, rfl⟩
        refine ⟨_, ⟨plain, rfl⟩, _, ⟨plains, rfl⟩, _, ⟨below, rfl⟩,
          _, ⟨plain, rfl⟩, ?_⟩
        exact congrArg Except.ok whole

theorem tostrAll_eq_ok_iff
    (entries : List (List UInt8 × TcConfigDomain)) (i : Nat)
    (text : List UInt8) :
    tostrAll i entries = .ok text ↔
      (∀ entry ∈ entries, Everywhere Writable entry.2) ∧
        text = unlines (linesAll i entries) := by
  cases entries with
  | nil =>
      rw [tostrAll, linesAll]
      simp [pure, Except.pure, unlines, eq_comm]
  | cons entry rest =>
      obtain ⟨key, domain⟩ := entry
      have here := tostr_eq_ok_iff domain i
      have behind := tostrAll_eq_ok_iff rest i
      rw [tostrAll, linesAll, unlines_append, List.forall_mem_cons]
      simp only [bind_eq_ok_iff, here, behind]
      constructor
      · rintro ⟨_, ⟨first, rfl⟩, _, ⟨others, rfl⟩, same⟩
        cases same
        exact ⟨⟨first, others⟩, rfl⟩
      · rintro ⟨⟨first, others⟩, rfl⟩
        exact ⟨_, ⟨first, rfl⟩, _, ⟨others, rfl⟩, rfl⟩

end

end TcConfigDomain

theorem getlines_line {line : List UInt8} (whole : 10 ∉ line)
    (front rest : List UInt8) :
    getlines front (line ++ 10 :: rest) =
      (front ++ line) :: getlines [] rest := by
  induction line generalizing front with
  | nil =>
      rw [List.nil_append, getlines, if_pos rfl, List.append_nil]
  | cons c line ih =>
      obtain ⟨other, whole⟩ := not_or.mp (mt List.mem_cons.mpr whole)
      rw [List.cons_append, getlines, if_neg (Ne.symm other), ih whole]
      simp

theorem getlines_unlines {lines : List (List UInt8)}
    (whole : ∀ line ∈ lines, 10 ∉ line) :
    getlines [] (unlines lines) = lines := by
  induction lines with
  | nil => rfl
  | cons line lines ih =>
      obtain ⟨first, others⟩ := List.forall_mem_cons.mp whole
      rw [unlines_cons, List.append_assoc, List.singleton_append,
        getlines_line first, ih others, List.nil_append]

theorem mem_escapes {s : List UInt8} {c : UInt8} (member : c ∈ escapes s) :
    c ∈ [92, 114, 110, 116, 61] ∨ c ∈ s ∧ c ∉ [92, 13, 10, 9, 61] := by
  obtain ⟨a, inside, member⟩ := List.mem_flatMap.mp member
  rcases escape_cases a with ⟨ordinary, printed⟩ | ⟨d, special, printed, _⟩
  · rw [printed] at member
    cases List.mem_singleton.mp member
    exact .inr ⟨inside, ordinary⟩
  · rw [printed] at member
    left
    rcases List.mem_cons.mp member with rfl | member
    · exact List.mem_cons_self
    · cases List.mem_singleton.mp member
      exact special

theorem indent_blank {i : Nat} {c : UInt8} (member : c ∈ indent i) :
    c = 32 := by
  obtain ⟨part, copies, inside⟩ := List.mem_flatten.mp member
  rw [List.eq_of_mem_replicate copies] at inside
  have two : ascii "  " = [32, 32] := by decide
  rw [two] at inside
  simpa using inside

theorem whole_indent {i : Nat} : 10 ∉ indent i := fun member =>
  absurd (indent_blank member) (by decide)

theorem whole_escapes {s : List UInt8} : 10 ∉ escapes s := by
  intro member
  rcases mem_escapes member with special | ⟨_, ordinary⟩
  · exact absurd special (by decide)
  · exact ordinary (by decide)

theorem whole_openingLine {i : Nat} {name : List UInt8} :
    10 ∉ openingLine i name := by
  simp [openingLine, whole_indent, whole_escapes]

theorem whole_closingLine {i : Nat} {name : List UInt8} :
    10 ∉ closingLine i name := by
  simp [closingLine, whole_indent, whole_escapes]

theorem whole_paramLine {i : Nat} {entry : List UInt8 × List UInt8} :
    10 ∉ paramLine i entry := by
  have two : 10 ∉ ascii "  " := by decide
  simp only [paramLine, paramText, List.mem_append, not_or]
  refine ⟨⟨two, whole_indent⟩, whole_escapes, ?_⟩
  split
  · exact List.not_mem_nil
  · simp [whole_escapes]

namespace TcConfigDomain

mutual

theorem whole_lines (domain : TcConfigDomain) (i : Nat) :
    ∀ line ∈ domain.lines i, 10 ∉ line := by
  cases domain with
  | mk name param subdomain _ =>
      intro line member
      rw [lines] at member
      simp only [List.mem_cons, List.mem_append, List.mem_map] at member
      rcases member with rfl | ⟨entry, _, rfl⟩ | below | rfl | none
      · exact whole_openingLine
      · exact whole_paramLine
      · exact whole_linesAll subdomain (i + 1) line below
      · exact whole_closingLine
      · cases none

theorem whole_linesAll (entries : List (List UInt8 × TcConfigDomain))
    (i : Nat) : ∀ line ∈ linesAll i entries, 10 ∉ line := by
  cases entries with
  | nil => exact fun line member => absurd member List.not_mem_nil
  | cons entry rest =>
      obtain ⟨key, domain⟩ := entry
      intro line member
      rw [linesAll, List.mem_append] at member
      rcases member with here | behind
      · exact whole_lines domain i line here
      · exact whole_linesAll rest i line behind

end

end TcConfigDomain

theorem trim_line {i : Nat} {s : List UInt8} (framed : Framed s) :
    trim (indent i ++ s) = s := by
  rw [trim_indent, trim_eq_iff.mpr framed]
  intro c member
  rw [indent_blank member]
  decide

theorem framed_tag (body : List UInt8) : Framed (60 :: body ++ [62]) := by
  rintro c (head | last)
  · cases head
    decide
  · rw [List.getLast?_append] at last
    cases last
    decide

theorem find_bracket {body : List UInt8} (plain : 62 ∉ body) :
    (60 :: body ++ [62]).findIdx? (· = 62) = some (body.length + 1) := by
  have none : (60 :: body).findIdx? (· = 62) = none := by
    rw [List.findIdx?_eq_none_iff]
    intro c member
    rcases List.mem_cons.mp member with rfl | inside
    · decide
    · exact decide_eq_false fun bracket => plain (bracket ▸ inside)
  have last : [(62 : UInt8)].findIdx? (· = 62) = some 0 := by decide
  rw [List.findIdx?_append, none, last]
  simp

theorem parseLine_tag {i : Nat} {body : List UInt8} (plain : 62 ∉ body)
    (parser : Parser) :
    parser.parseLine (indent i ++ (60 :: body ++ [62])) =
      parser.parseTag (60 :: body ++ [62]) (body.length + 1) := by
  have read : charAt (60 :: body ++ [62]) 0 = .ok 60 := rfl
  rw [Parser.parseLine, trim_line (framed_tag body)]
  dsimp only
  rw [if_neg (by simp), read, ok_bind, if_neg (by decide), if_pos rfl,
    find_bracket plain]

theorem plain_escapes {s : List UInt8} (plain : Plain s) :
    62 ∉ escapes s := by
  intro member
  rcases mem_escapes member with special | ⟨inside, _⟩
  · exact absurd special (by decide)
  · exact plain.2 inside

theorem head_escapes {s : List UInt8} {c : UInt8}
    (visible : c ∉ [92, 13, 10, 9, 61]) :
    (escapes s).head? = some c ↔ s.head? = some c := by
  cases s with
  | nil => exact Iff.rfl
  | cons a s =>
      rw [escapes, List.flatMap_cons, List.head?_append,
        List.head?_eq_some_head (escape_ne_nil a), Option.some_or,
        ← List.head?_eq_some_head, List.head?_cons]
      rcases escape_cases a with ⟨_, printed⟩ | ⟨d, _, printed, _, _, special⟩
      · rw [printed, List.head?_cons]
      · rw [printed, List.head?_cons, Option.some_inj, Option.some_inj]
        constructor
        · rintro rfl
          exact absurd List.mem_cons_self visible
        · rintro rfl
          exact absurd special visible

theorem trim_paramLine {i : Nat} {entry : List UInt8 × List UInt8}
    (key : Unspaced entry.1) (value : Unspaced entry.2) :
    trim (paramLine i entry) = paramText entry := by
  have deeper : ascii "  " ++ indent i = indent (i + 1) := by
    rw [indent, indent, List.replicate_succ, List.flatten_cons]
  rw [paramLine, deeper, trim_line (framed_paramText key value)]

/-- A printed parameter begins as its key does. -/
theorem head_paramText {entry : List UInt8 × List UInt8} {c : UInt8}
    {rest : List UInt8} (visible : c ∉ [92, 13, 10, 9, 61])
    (shape : paramText entry = c :: rest) : entry.1.head? = some c := by
  rw [← head_escapes visible]
  have whole : (paramText entry).head? = some c := by
    rw [shape]
    rfl
  rw [paramText, List.head?_append] at whole
  rcases Option.or_eq_some_iff.mp whole with here | ⟨_, behind⟩
  · exact here
  · split at behind
    · cases behind
    · cases behind
      exact absurd visible (by decide)

section Steps

variable {root top : TcConfigDomain} {path : Path} {stack : List Path}
  {name : List UInt8} {i : Nat}

theorem top_eq (found : root.find? path = some top) :
    Parser.top ⟨root, path :: stack⟩ = .ok (path, top) := by
  rw [Parser.top]
  dsimp only
  rw [found]

/-- An opening tag adds a domain under the escaped name. -/
theorem parseLine_opening (found : root.find? path = some top)
    (plain : Plain name) (open' : name.head? ≠ some 47) :
    Parser.parseLine ⟨root, path :: stack⟩ (openingLine i name) =
      .ok ⟨root.assign path (top.addSubDomain (escapes name)),
        (path ++ [escapes name]) :: path :: stack⟩ := by
  have own : Parser.top ⟨root, path :: stack⟩ = .ok (path, top) :=
    top_eq found
  have read : ∃ second, charAt (60 :: escapes name ++ [62]) 1 = .ok second ∧
      second ≠ 47 := by
    cases shape : escapes name with
    | nil => exact ⟨62, rfl, by decide⟩
    | cons c rest =>
        refine ⟨c, rfl, fun slash => open' ?_⟩
        rw [← head_escapes (by decide), shape, slash]
        rfl
  obtain ⟨second, read, other⟩ := read
  have inner : substr (60 :: escapes name ++ [62]) 1
      ((escapes name).length + 1 - 1) = .ok (escapes name) := by
    rw [substr, if_pos (by simp)]
    simp
  rw [openingLine, parseLine_tag (plain_escapes plain), Parser.parseTag, read,
    ok_bind, if_neg other, inner, ok_bind, own, ok_bind]
  rfl

/-- A closing tag closes the domain with the escaped name. -/
theorem parseLine_closing (found : root.find? path = some top)
    (named : top.name = escapes name) (plain : Plain name) :
    Parser.parseLine ⟨root, path :: stack⟩ (closingLine i name) =
      .ok ⟨root, stack⟩ := by
  have body : 62 ∉ 47 :: escapes name := by
    rw [List.mem_cons, not_or]
    exact ⟨by decide, plain_escapes plain⟩
  have own : Parser.top ⟨root, path :: stack⟩ = .ok (path, top) :=
    top_eq found
  have inner : substr (60 :: (47 :: escapes name) ++ [62]) 2
      ((47 :: escapes name).length + 1 - 2) = .ok (escapes name) := by
    rw [substr, if_pos (by simp)]
    simp
  have read : charAt (60 :: (47 :: escapes name) ++ [62]) 1 = .ok 47 := rfl
  rw [closingLine, parseLine_tag body, Parser.parseTag, read, ok_bind,
    if_pos rfl, inner, ok_bind]
  dsimp only
  rw [own, ok_bind]
  dsimp only
  rw [if_neg (not_not.mpr named)]
  rfl

/-- A line with a parameter sets it, unless it is empty. -/
theorem parseLine_param {entry : List UInt8 × List UInt8}
    (found : root.find? path = some top) (key : Unspaced entry.1)
    (value : Unspaced entry.2) (plain : Plain entry.1)
    (comment : entry.1.head? ≠ some 35) :
    (Parser.parseLine ⟨root, path :: stack⟩ (paramLine i entry) =
        .ok ⟨root, path :: stack⟩ ∧ written entry = none) ∨
      ∃ name text new, Parser.parseLine ⟨root, path :: stack⟩
          (paramLine i entry) = .ok ⟨root.assign path new, path :: stack⟩ ∧
        written entry = some (name, text) ∧ new.name = top.name ∧
        new.subdomain = top.subdomain ∧
        new.param = top.param.filter (·.1 ≠ name) ++ [(name, text)] := by
  rw [Parser.parseLine, trim_paramLine key value]
  dsimp only
  by_cases empty : paramText entry = []
  · left
    rw [empty]
    refine ⟨rfl, ?_⟩
    rw [written, if_pos (paramText_eq_nil_iff.mp empty)]
  · right
    have some' := mt paramText_eq_nil_iff.mpr empty
    obtain ⟨first, rest, shape⟩ := List.exists_cons_of_ne_nil empty
    have read : charAt (paramText entry) 0 = .ok first := by
      rw [shape]
      rfl
    have hash : first ≠ 35 := fun same =>
      comment (head_paramText (by decide) (same ▸ shape))
    have bracket : first ≠ 60 := fun same => plain.1
      (List.mem_of_mem_head? (head_paramText (by decide) (same ▸ shape)))
    have sets := setting_paramText key value some'
    have present : ∃ name text, written entry = some (name, text) := by
      rw [written, if_neg some']
      split
      · exact ⟨_, _, rfl⟩
      · exact ⟨entry.1, entry.2, rfl⟩
    obtain ⟨name, text, present⟩ := present
    rcases top.setParamLine_cases empty with
      ⟨_, _, new, sets', result, same, subdomain, param⟩ | ⟨nothing, _⟩
    · rw [sets, present] at sets'
      cases sets'
      refine ⟨name, text, new, ?_, present, same, subdomain, param⟩
      rw [if_neg (by rw [shape]; simp), read, ok_bind, if_neg hash,
        if_neg bracket, top_eq found, ok_bind]
      dsimp only
      rw [result]
      rfl
    · rw [sets, present] at nothing
      cases nothing

end Steps

end TarsCpp.Config
