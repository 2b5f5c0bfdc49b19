import TarsCpp.Config.ConfigDomain
import TarsCpp.Nesting

/-!
# Which configuration files are accepted

What an assignment to the domain at the end of a path changes in the tree, and
the lines of a file as tags, with the parser as a stack of the names of the
domains that are open, the unnamed root among them.
-/

namespace TarsCpp.Config

namespace TcConfigDomain

/-- Every subdomain has the name under which it has been added. -/
inductive WellNamed : TcConfigDomain → Prop
  | mk {name : List UInt8} {param : List (List UInt8 × List UInt8)}
      {subdomain : List (List UInt8 × TcConfigDomain)}
      {line : List (List UInt8)}
      (named : ∀ entry ∈ subdomain, entry.2.name = trim entry.1)
      (below : ∀ entry ∈ subdomain, WellNamed entry.2) :
      WellNamed (.mk name param subdomain line)

/-- The same name, and all subdomains of the other one. -/
structure Extends (old new : TcConfigDomain) : Prop where
  name : new.name = old.name
  child : ∀ {key domain}, old.child key = some domain →
    new.child key = some domain

variable {domain old new : TcConfigDomain} {path : Path}
  {key : List UInt8}

theorem mem_of_child {child : TcConfigDomain}
    (found : domain.child key = some child) :
    (key, child) ∈ domain.subdomain := by
  obtain ⟨entry, search, rfl⟩ := Option.map_eq_some_iff.mp found
  have same : entry.1 = key := by simpa using List.find?_some search
  rw [← same]
  exact List.mem_of_find?_eq_some search

theorem WellNamed.child (wellNamed : domain.WellNamed)
    {child : TcConfigDomain} (found : domain.child key = some child) :
    child.WellNamed ∧ child.name = trim key := by
  have member := mem_of_child found
  cases wellNamed with
  | mk named below => exact ⟨below _ member, named _ member⟩

theorem WellNamed.find? (wellNamed : domain.WellNamed)
    (found : domain.find? path = some old) : old.WellNamed := by
  induction path generalizing domain with
  | nil =>
      cases found
      exact wellNamed
  | cons name path ih =>
      obtain ⟨child, here, later⟩ := Option.bind_eq_some_iff.mp found
      exact ih (wellNamed.child here).1 later

theorem find?_append (domain : TcConfigDomain) (path more : Path) :
    domain.find? (path ++ more) = (domain.find? path).bind (·.find? more) := by
  induction path generalizing domain with
  | nil => rfl
  | cons name path ih =>
      rw [List.cons_append, find?, find?]
      cases domain.child name with
      | none => rfl
      | some child => exact ih child

theorem child_assign (domain : TcConfigDomain) (name : List UInt8)
    (path : Path) (new : TcConfigDomain) (key : List UInt8) :
    (domain.assign (name :: path) new).child key =
      if key = name then (domain.child key).map (·.assign path new)
      else domain.child key := by
  obtain ⟨own, param, subdomain, line⟩ := domain
  rw [assign, child, child, TcConfigDomain.subdomain,
    TcConfigDomain.subdomain, List.find?_map]
  have keys : ((fun entry : List UInt8 × TcConfigDomain =>
      decide (entry.1 = key)) ∘ fun entry =>
        if entry.1 = name then (entry.1, entry.2.assign path new)
        else entry) = fun entry => decide (entry.1 = key) := by
    funext entry
    rw [Function.comp_apply]
    split <;> rfl
  rw [keys]
  cases search : subdomain.find? (·.1 = key) with
  | none => split <;> rfl
  | some entry =>
      have same : entry.1 = key := by simpa using List.find?_some search
      rw [Option.map_some, Option.map_some, Option.map_some, same]
      split <;> rfl

theorem name_assign (domain : TcConfigDomain) (name : List UInt8)
    (path : Path) (new : TcConfigDomain) :
    (domain.assign (name :: path) new).name = domain.name := by
  obtain ⟨own, param, subdomain, line⟩ := domain
  rfl

theorem find?_assign (found : domain.find? path = some old) :
    (domain.assign path new).find? path = some new := by
  induction path generalizing domain with
  | nil =>
      rw [assign]
      rfl
  | cons name path ih =>
      obtain ⟨child, here, later⟩ := Option.bind_eq_some_iff.mp found
      rw [find?, child_assign, if_pos rfl, here]
      exact ih later

/-- Other pointers still lead to domains of the same names. -/
theorem named_assign (found : domain.find? path = some old)
    (extended : old.Extends new) {other : Path} {target : TcConfigDomain}
    (reached : domain.find? other = some target) :
    ∃ target', (domain.assign path new).find? other = some target' ∧
      target'.name = target.name := by
  induction path generalizing domain other with
  | nil =>
      cases found
      rw [assign]
      cases other with
      | nil =>
          cases reached
          exact ⟨new, rfl, extended.name⟩
      | cons key other =>
          obtain ⟨child, here, later⟩ := Option.bind_eq_some_iff.mp reached
          refine ⟨target, ?_, rfl⟩
          rw [find?, extended.child here]
          exact later
  | cons name path ih =>
      obtain ⟨child, here, later⟩ := Option.bind_eq_some_iff.mp found
      cases other with
      | nil =>
          cases reached
          exact ⟨_, rfl, name_assign ..⟩
      | cons key other =>
          obtain ⟨child', here', later'⟩ := Option.bind_eq_some_iff.mp reached
          rw [find?, child_assign]
          split
          · next same =>
              subst same
              rw [here] at here'
              cases here'
              rw [here]
              exact ih later later'
          · rw [here']
            exact ⟨target, later', rfl⟩

/-- The name of a domain is that of the key at the end of its path. -/
theorem WellNamed.name_eq (wellNamed : domain.WellNamed)
    (found : domain.find? (path ++ [key]) = some old) : old.name = trim key := by
  rw [find?_append] at found
  obtain ⟨parent, here, later⟩ := Option.bind_eq_some_iff.mp found
  obtain ⟨child, last, same⟩ := Option.bind_eq_some_iff.mp later
  cases same
  exact ((wellNamed.find? here).child last).2

theorem WellNamed.assign (wellNamed : domain.WellNamed)
    (name : ∀ {front key}, path = front ++ [key] → new.name = trim key)
    (below : new.WellNamed) : (domain.assign path new).WellNamed := by
  induction path generalizing domain with
  | nil =>
      rw [TcConfigDomain.assign]
      exact below
  | cons key path ih =>
      cases wellNamed with
      | @mk own param subdomain line named inside =>
          have deeper : ∀ {front last}, path = front ++ [last] →
              new.name = trim last := by
            intro front last split
            exact name (show key :: path = (key :: front) ++ [last] by
              rw [split]
              rfl)
          have kept : ∀ entry ∈ subdomain, entry.1 = key →
              (entry.2.assign path new).name = trim entry.1 := by
            intro entry member same
            cases path with
            | nil =>
                rw [TcConfigDomain.assign, same]
                exact @name [] key rfl
            | cons next path =>
                rw [name_assign]
                exact named entry member
          rw [TcConfigDomain.assign]
          constructor
          · intro entry member
            obtain ⟨other, present, rfl⟩ := List.mem_map.mp member
            split
            · next same => exact kept other present same
            · exact named other present
          · intro entry member
            obtain ⟨other, present, rfl⟩ := List.mem_map.mp member
            split
            · exact ih (inside other present) deeper
            · exact inside other present

theorem name_addSubDomain (domain : TcConfigDomain) (name : List UInt8) :
    (domain.addSubDomain name).name = domain.name := by
  obtain ⟨own, param, subdomain, line⟩ := domain
  rw [addSubDomain]
  split <;> rfl

theorem child_addSubDomain (domain : TcConfigDomain) (name key : List UInt8) :
    (domain.addSubDomain name).child key =
      if key = name then some ((domain.child name).getD (ofLine name))
      else domain.child key := by
  obtain ⟨own, param, subdomain, line⟩ := domain
  rw [addSubDomain]
  cases present : (TcConfigDomain.mk own param subdomain line).child name with
  | some child =>
      rw [if_neg (by simp)]
      split
      · next same =>
          rw [same, present]
          rfl
      · rfl
  | none =>
      have absent : subdomain.find? (·.1 = name) = none := by
        rw [child, Option.map_eq_none_iff] at present
        exact present
      rw [if_pos (by simp), child, TcConfigDomain.subdomain, List.find?_append]
      split
      · next same =>
          rw [same, absent]
          simp
      · next other =>
          rw [List.find?_cons_of_neg (by simpa using Ne.symm other)]
          rw [List.find?_nil, Option.or_none]
          rfl

theorem extends_addSubDomain (domain : TcConfigDomain) (name : List UInt8) :
    domain.Extends (domain.addSubDomain name) where
  name := name_addSubDomain domain name
  child := by
    intro key target found
    rw [child_addSubDomain]
    split
    · next same =>
        subst same
        rw [found]
        rfl
    · exact found

theorem WellNamed.addSubDomain (wellNamed : domain.WellNamed)
    (name : List UInt8) : (domain.addSubDomain name).WellNamed := by
  cases wellNamed with
  | @mk own param subdomain line named below =>
      rw [TcConfigDomain.addSubDomain]
      split
      · have empty : (ofLine name).WellNamed := .mk (by simp) (by simp)
        constructor
        · intro entry member
          rcases List.mem_append.mp member with old | new
          · exact named entry old
          · rw [List.mem_singleton.mp new]
            rfl
        · intro entry member
          rcases List.mem_append.mp member with old | new
          · exact below entry old
          · rw [List.mem_singleton.mp new]
            exact empty
      · exact .mk named below

/-- A line sets a parameter, if its escapes are known. -/
theorem setParamLine_cases (domain : TcConfigDomain) {sLine : List UInt8}
    (nonempty : sLine ≠ []) :
    (∃ key value new, setting sLine = some (key, value) ∧
        domain.setParamLine sLine = .ok new ∧ new.name = domain.name ∧
        new.subdomain = domain.subdomain ∧
        new.param = domain.param.filter (·.1 ≠ key) ++ [(key, value)]) ∨
      setting sLine = none ∧ ∃ buffer,
        domain.setParamLine sLine = .error (.TC_Config_Exception buffer) := by
  obtain ⟨own, param, subdomain, line⟩ := domain
  rw [setParamLine, if_neg nonempty]
  rcases (paramOf_computes sLine).cases with
    ⟨⟨key, value⟩, result, sets⟩ | ⟨⟨buffer, result⟩, nothing⟩
  · rw [result, ok_bind]
    exact .inl ⟨key, value, _, sets, rfl, rfl, rfl, rfl⟩
  · rw [result]
    exact .inr ⟨nothing, buffer, rfl⟩

theorem extends_of_subdomain (name : new.name = old.name)
    (subdomain : new.subdomain = old.subdomain) : old.Extends new where
  name := name
  child := by
    intro key target found
    rw [child, subdomain]
    exact found

theorem WellNamed.of_subdomain (wellNamed : old.WellNamed)
    (subdomain : new.subdomain = old.subdomain) : new.WellNamed := by
  obtain ⟨own, param, entries, line⟩ := new
  cases wellNamed with
  | mk named below =>
      cases subdomain
      exact .mk named below

end TcConfigDomain

open Nesting

inductive Item
  /-- An empty line, or a comment. -/
  | blank
  | parameter
  /-- An opening bracket without a closing one. -/
  | malformed
  /-- A line with an unknown escape. -/
  | invalid
deriving DecidableEq, Repr

abbrev Token := Tag (List UInt8) Item

def Item.Parses (item : Item) : Prop := item = .blank ∨ item = .parameter

instance decidableParses : DecidablePred Item.Parses := fun item =>
  inferInstanceAs (Decidable (item = .blank ∨ item = .parameter))

/-- What a line is. -/
def token (line : List UInt8) : Token :=
  let s := trim line
  match s with
  | [] => .leaf .blank
  | first :: _ =>
      if first = 35 then
        .leaf .blank
      else if first = 60 then
        match s.findIdx? (· = 62) with
        | none => .leaf .malformed
        | some posl =>
            if s[1]? = some 47 then
              .closing ((s.drop 2).take (posl - 2))
            else
              .opening ((s.drop 1).take (posl - 1))
      else if (setting s).isSome then
        .leaf .parameter
      else
        .leaf .invalid

def tokens (buffer : List UInt8) : List Token :=
  (getlines [] buffer).map token

inductive Fault
  | thrown
  | emptyStack
deriving DecidableEq, Repr

/-- What a line makes of the names of the open domains, the root last. -/
def advance (names : List (List UInt8)) :
    Token → Except Fault (List (List UInt8))
  | .leaf .blank => .ok names
  | .leaf .malformed => .error .thrown
  | .leaf .parameter => if names = [] then .error .emptyStack else .ok names
  | .leaf .invalid =>
      if names = [] then .error .emptyStack else .error .thrown
  | .opening name =>
      if names = [] then .error .emptyStack else .ok (trim name :: names)
  | .closing name =>
      match names with
      | [] => .error .thrown
      | expected :: names =>
          if name = expected then .ok names else .error .thrown

/-- The pointers on the stack lead to domains of these names. -/
structure Tracks (parser : Parser) (names : List (List UInt8)) : Prop where
  pointers : List.Forall₂ (fun path name => ∃ domain,
    parser.root.find? path = some domain ∧ domain.name = name)
    parser.stack names
  wellNamed : parser.root.WellNamed

inductive Follows :
    Except Failure Parser → Except Fault (List (List UInt8)) → Prop
  | ok {parser : Parser} {names : List (List UInt8)}
      (tracks : Tracks parser names) : Follows (.ok parser) (.ok names)
  | thrown (buffer : List UInt8) :
      Follows (.error (.TC_Config_Exception buffer)) (.error .thrown)
  | emptyStack : Follows (.error .emptyStack) (.error .emptyStack)

section Steps

variable {parser : Parser} {names : List (List UInt8)}

theorem Tracks.top_nil (tracks : Tracks parser []) :
    parser.stack = [] ∧ parser.top = .error .emptyStack := by
  have empty := List.forall₂_nil_right_iff.mp tracks.pointers
  rw [Parser.top, empty]
  exact ⟨rfl, rfl⟩

theorem Tracks.top_cons {name : List UInt8}
    (tracks : Tracks parser (name :: names)) :
    ∃ path domain rest, parser.stack = path :: rest ∧
      parser.top = .ok (path, domain) ∧
      parser.root.find? path = some domain ∧ domain.name = name ∧
      Tracks { parser with stack := rest } names := by
  obtain ⟨path, rest, ⟨domain, found, same⟩, behind, stack⟩ :=
    List.forall₂_cons_right_iff.mp tracks.pointers
  refine ⟨path, domain, rest, stack, ?_, found, same, behind,
    tracks.wellNamed⟩
  rw [Parser.top, stack]
  dsimp only
  rw [found]

/-- An assignment leaves the pointers and their names alone. -/
theorem Tracks.assign (tracks : Tracks parser names) {path : Path}
    {old new : TcConfigDomain} (found : parser.root.find? path = some old)
    (extended : old.Extends new) (below : new.WellNamed) :
    Tracks { parser with root := parser.root.assign path new } names where
  pointers := by
    refine tracks.pointers.imp ?_
    rintro other name ⟨domain, reached, same⟩
    obtain ⟨domain', reached', same'⟩ :=
      TcConfigDomain.named_assign found extended reached
    exact ⟨domain', reached', same'.trans same⟩
  wellNamed := by
    apply tracks.wellNamed.assign _ below
    intro front key split
    rw [extended.name]
    rw [split] at found
    exact tracks.wellNamed.name_eq found

theorem Tracks.setParamLine (tracks : Tracks parser names)
    {sLine : List UInt8} (nonempty : sLine ≠ []) :
    Follows
      (do
        let (path, top) ← parser.top
        let domain ← top.setParamLine sLine
        pure { parser with root := parser.root.assign path domain })
      (advance names
        (if (setting sLine).isSome then .leaf .parameter
          else .leaf .invalid)) := by
  cases names with
  | nil =>
      rw [tracks.top_nil.2]
      split <;> exact .emptyStack
  | cons name names =>
      obtain ⟨path, domain, rest, stack, top, found, _⟩ := tracks.top_cons
      rw [top, ok_bind]
      dsimp only
      rcases domain.setParamLine_cases nonempty with
        ⟨key, value, new, sets, result, same, subdomain, _⟩ |
        ⟨nothing, buffer, result⟩
      · rw [result, ok_bind, sets]
        refine .ok (tracks.assign found
          (TcConfigDomain.extends_of_subdomain same subdomain) ?_)
        exact (tracks.wellNamed.find? found).of_subdomain subdomain
      · rw [result, nothing]
        exact .thrown buffer

/-- The line is long enough for what is read of it. -/
theorem tag_cases {s : List UInt8} {posl : Nat}
    (found : s.findIdx? (· = 62) = some posl) (opens : s[0]? = some 60) :
    ∃ second, charAt s 1 = .ok second ∧ s[1]? = some second ∧
      substr s 1 (posl - 1) = .ok ((s.drop 1).take (posl - 1)) ∧
      substr s 2 (posl - 2) = .ok ((s.drop 2).take (posl - 2)) := by
  obtain ⟨within, here, _⟩ := List.findIdx?_eq_some_iff_getElem.mp found
  have behind : posl ≠ 0 := by
    intro start
    subst start
    rw [List.getElem?_eq_getElem within] at opens
    rw [Option.some.inj opens] at here
    exact absurd here (by decide)
  have long : 1 < s.length := by omega
  refine ⟨s.get ⟨1, long⟩, ?_, ?_, ?_, ?_⟩
  · rw [charAt, List.getElem?_eq_getElem long]
    rfl
  · rw [List.getElem?_eq_getElem long]
    rfl
  · rw [substr, if_pos (by omega)]
  · rw [substr, if_pos (by omega)]

theorem Tracks.parseTag (tracks : Tracks parser names) {s : List UInt8}
    {posl : Nat} (found : s.findIdx? (· = 62) = some posl)
    (opens : s[0]? = some 60) :
    Follows (parser.parseTag s posl)
      (advance names
        (if s[1]? = some 47 then .closing ((s.drop 2).take (posl - 2))
          else .opening ((s.drop 1).take (posl - 1)))) := by
  obtain ⟨second, read, same, name, sName⟩ := tag_cases found opens
  rw [Parser.parseTag, read, ok_bind, same]
  by_cases closes : second = 47
  · rw [if_pos closes, if_pos (congrArg some closes), sName, ok_bind]
    generalize (s.drop 2).take (posl - 2) = closing
    cases names with
    | nil =>
        rw [tracks.top_nil.1]
        exact .thrown _
    | cons expected names =>
        obtain ⟨path, domain, rest, stack, top, _, own, popped⟩ :=
          tracks.top_cons
        rw [stack, top, advance]
        dsimp only
        rw [ok_bind]
        dsimp only
        rw [own]
        by_cases fits : expected = closing
        · rw [if_neg (not_not.mpr fits), if_pos fits.symm]
          exact .ok popped
        · rw [if_pos fits, if_neg (Ne.symm fits)]
          exact .thrown _
  · rw [if_neg closes, if_neg fun slash => closes (Option.some.inj slash),
      name, ok_bind]
    generalize (s.drop 1).take (posl - 1) = opening
    cases names with
    | nil =>
        rw [tracks.top_nil.2]
        exact .emptyStack
    | cons parent names =>
        obtain ⟨path, domain, rest, stack, top, reached, _⟩ := tracks.top_cons
        rw [top, ok_bind]
        have extended := domain.extends_addSubDomain opening
        have below :=
          (tracks.wellNamed.find? reached).addSubDomain opening
        have tracks' := tracks.assign reached extended below
        refine .ok ⟨.cons ?_ tracks'.pointers, tracks'.wellNamed⟩
        have added : (domain.addSubDomain opening).child opening =
            some ((domain.child opening).getD (.ofLine opening)) := by
          rw [TcConfigDomain.child_addSubDomain, if_pos rfl]
        refine ⟨(domain.child opening).getD (.ofLine opening), ?_,
          (below.child added).2⟩
        rw [TcConfigDomain.find?_append,
          TcConfigDomain.find?_assign reached, Option.bind_some,
          TcConfigDomain.find?, added]
        rfl

theorem Tracks.parseLine (tracks : Tracks parser names)
    (line : List UInt8) :
    Follows (parser.parseLine line) (advance names (token line)) := by
  rw [Parser.parseLine, token]
  generalize trim line = s
  dsimp only
  cases s with
  | nil => exact .ok tracks
  | cons first rest =>
      have nonempty : (first :: rest).length ≠ 0 := by simp
      have read : charAt (first :: rest) 0 = .ok first := rfl
      rw [if_neg nonempty, read, ok_bind]
      dsimp only
      by_cases comment : first = 35
      · rw [if_pos comment, if_pos comment]
        exact .ok tracks
      · rw [if_neg comment, if_neg comment]
        by_cases bracket : first = 60
        · rw [if_pos bracket, if_pos bracket]
          cases found : (first :: rest).findIdx? (· = 62) with
          | none => exact .thrown _
          | some posl =>
              exact tracks.parseTag found (by rw [bracket]; rfl)
        · rw [if_neg bracket, if_neg bracket]
          exact tracks.setParamLine (List.cons_ne_nil first rest)

end Steps

end TarsCpp.Config
