import Mathlib.Data.List.DropRight
import TarsCpp.CString

/-!
# Configurations

The functions of `TC_ConfigDomain` on strings, with every access to a character
checked, and what they compute; `TC_ConfigDomain` and `TC_Config::parse`.  A
domain owns its subdomains; a pointer to one of them is the path that leads to
it from the root.
-/

namespace TarsCpp.Config

open CString

inductive Failure
  | TC_Config_Exception (buffer : List UInt8)
  /-- `std::out_of_range` -/
  | outOfRange
  /-- A character behind the end of a string. -/
  | outside
  /-- The top of the empty stack. -/
  | emptyStack
  /-- A pointer to no domain. -/
  | dangling
  /-- A loop has not come to its end. -/
  | endless
deriving DecidableEq, Repr

/-- `" \r\n\t"` -/
def blanks : List UInt8 := [32, 13, 10, 9]

/-- `TC_Common::trim` of blanks. -/
def trim (sStr : List UInt8) : List UInt8 :=
  (sStr.dropWhile (· ∈ blanks)).rdropWhile (· ∈ blanks)

def charAt (s : List UInt8) (pos : Nat) : Except Failure UInt8 :=
  match s[pos]? with
  | some c => .ok c
  | none => .error .outside

def substr (s : List UInt8) (pos n : Nat) : Except Failure (List UInt8) :=
  if pos ≤ s.length then .ok ((s.drop pos).take n) else .error .outOfRange

/-- What a letter behind a backslash stands for. -/
def escaped (c : UInt8) : Option UInt8 :=
  if c = 92 then some 92
  else if c = 114 then some 13
  else if c = 110 then some 10
  else if c = 116 then some 9
  else if c = 61 then some 61
  else none

/-- The loop of `TC_ConfigDomain::parse`. -/
def parseLoop (s : List UInt8) : Nat → Nat → List UInt8 →
    Except Failure (List UInt8)
  | 0, pos, param => if pos < s.length then .error .endless else .ok param
  | turns + 1, pos, param =>
      if pos < s.length then do
        let c ← charAt s pos
        if c = 92 ∧ pos < s.length - 1 then
          let d ← charAt s (pos + 1)
          match escaped d with
          | some e => parseLoop s turns (pos + 2) (param ++ [e])
          | none =>
              .error (.TC_Config_Exception
                (ascii "[TC_ConfigDomain::parse] '" ++ s ++
                  ascii "' is invalid, '" ++ [c, d] ++
                  ascii "' couldn't be parse!"))
        else if c = 92 then
          .error (.TC_Config_Exception
            (ascii "[TC_ConfigDomain::parse] '" ++ s ++
              ascii "' is invalid, '" ++ [c] ++ ascii "' couldn't be parse!"))
        else
          parseLoop s turns (pos + 1) (param ++ [c])
      else
        .ok param

/-- `TC_ConfigDomain::parse` -/
def parse (s : List UInt8) : Except Failure (List UInt8) :=
  if s = [] then .ok [] else parseLoop s s.length 0 []

/-- The loop of `TC_ConfigDomain::setParamValue` over a line: the first equals
sign that has no backslash in front of it. -/
def separatorLoop (line : List UInt8) : Nat → Nat →
    Except Failure (Option Nat)
  | 0, pos => if pos < line.length then .error .endless else .ok none
  | turns + 1, pos =>
      if pos < line.length then do
        let c ← charAt line pos
        if c = 61 then
          if pos > 0 then
            let before ← charAt line (pos - 1)
            if before = 92 then
              separatorLoop line turns (pos + 1)
            else
              .ok (some pos)
          else
            .ok (some pos)
        else
          separatorLoop line turns (pos + 1)
      else
        .ok none

/-- The key and the value that a line sets. -/
def paramOf (line : List UInt8) :
    Except Failure (List UInt8 × List UInt8) := do
  match ← separatorLoop line line.length 0 with
  | some pos =>
      let name ← parse (trim (← substr line 0 pos))
      if pos < line.length - 1 then
        let value ← parse (trim (← substr line (pos + 1) line.length))
        pure (name, value)
      else
        pure (name, [])
  | none => do
      let name ← parse (trim line)
      pure (name, [])

/-- `TC_ConfigDomain::reverse_parse` of one character. -/
def escape (c : UInt8) : List UInt8 :=
  if c = 92 then [92, 92]
  else if c = 13 then [92, 114]
  else if c = 10 then [92, 110]
  else if c = 9 then [92, 116]
  else if c = 61 then [92, 61]
  else [c]

/-- `TC_ConfigDomain::reverse_parse` -/
def reverse_parse (s : List UInt8) : Except Failure (List UInt8) :=
  if 60 ∈ s ∨ 62 ∈ s then
    .error (.TC_Config_Exception
      (ascii "[TC_ConfigDomain::reverse_parse] '" ++ s ++
        ascii "' is invalid, couldn't be parse!"))
  else
    .ok (s.flatMap escape)

/-- The text without its escapes, unless one of them is unknown. -/
def unescape : List UInt8 → Option (List UInt8)
  | [] => some []
  | [c] => if c = 92 then none else some [c]
  | c :: d :: rest =>
      if c = 92 then do
        let e ← escaped d
        let text ← unescape rest
        some (e :: text)
      else do
        let text ← unescape (d :: rest)
        some (c :: text)

/-- What stands in front of the first equals sign that is not escaped, and
behind it. -/
def separate (backslash : Bool) :
    List UInt8 → Option (List UInt8 × List UInt8)
  | [] => none
  | c :: rest =>
      if c = 61 ∧ backslash = false then
        some ([], rest)
      else do
        let (name, value) ← separate (c = 92) rest
        some (c :: name, value)

/-- A result of the code that throws where there is none. -/
inductive Computes {α : Type} : Except Failure α → Option α → Prop
  | value (value : α) : Computes (.ok value) (some value)
  | thrown (buffer : List UInt8) :
      Computes (.error (.TC_Config_Exception buffer)) none

theorem Computes.cases {α : Type} {code : Except Failure α}
    {value : Option α} (computes : Computes code value) :
    (∃ result, code = .ok result ∧ value = some result) ∨
      (∃ buffer, code = .error (.TC_Config_Exception buffer)) ∧
        value = none := by
  cases computes with
  | value result => exact .inl ⟨result, rfl, rfl⟩
  | thrown buffer => exact .inr ⟨⟨buffer, rfl⟩, rfl⟩

theorem Computes.bind {α β : Type} {code : Except Failure α}
    {value : Option α} (computes : Computes code value)
    {next : α → Except Failure β} {rest : α → Option β}
    (later : ∀ result, Computes (next result) (rest result)) :
    Computes (code >>= next) (value >>= rest) := by
  cases computes with
  | value result => exact later result
  | thrown buffer => exact .thrown buffer

theorem ok_bind {α β : Type} (value : α) (next : α → Except Failure β) :
    ((.ok value : Except Failure α) >>= next) = next value :=
  rfl

section Loops

variable {s : List UInt8}

theorem charAt_drop {pos : Nat} {c : UInt8} {rest : List UInt8}
    (here : s.drop pos = c :: rest) :
    charAt s pos = .ok c ∧ pos < s.length ∧ s.drop (pos + 1) = rest := by
  have found : s[pos]? = some c := by
    have first := congrArg (·[0]?) here
    simpa using first
  have within := (List.getElem?_eq_some_iff.mp found).1
  refine ⟨by rw [charAt, found], within, ?_⟩
  rw [← List.drop_drop, here]
  rfl

theorem parseLoop_computes {turns : Nat} (pos : Nat)
    (enough : s.length ≤ turns + pos) (param : List UInt8) :
    Computes (parseLoop s turns pos param)
      ((unescape (s.drop pos)).map (param ++ ·)) := by
  induction turns generalizing pos param with
  | zero =>
      have ended : ¬ pos < s.length := by omega
      have nothing : s.drop pos = [] := List.drop_eq_nil_of_le (by omega)
      rw [parseLoop, if_neg ended, nothing, unescape, Option.map_some,
        List.append_nil]
      exact .value param
  | succ turns ih =>
      rw [parseLoop]
      cases here : s.drop pos with
      | nil =>
          have ended : ¬ pos < s.length := by
            have whole := List.drop_eq_nil_iff.mp here
            omega
          rw [if_neg ended, unescape, Option.map_some, List.append_nil]
          exact .value param
      | cons c rest =>
          obtain ⟨first, within, behind⟩ := charAt_drop here
          have length := congrArg List.length here
          rw [List.length_drop, List.length_cons] at length
          rw [if_pos within, first, ok_bind]
          cases rest with
          | nil =>
              have last : ¬ pos < s.length - 1 := by
                rw [List.length_nil] at length
                omega
              rw [if_neg fun both => last both.2, unescape]
              split
              · exact .thrown _
              · have rest := ih (pos + 1) (by omega) (param ++ [c])
                rw [behind, unescape, Option.map_some,
                  List.append_nil] at rest
                exact rest
          | cons d rest =>
              obtain ⟨second, _, behind'⟩ := charAt_drop behind
              rw [List.length_cons] at length
              rw [unescape]
              by_cases slash : c = 92
              · rw [if_pos ⟨slash, by omega⟩, second, ok_bind, if_pos slash]
                cases escaped d with
                | none => exact .thrown _
                | some e =>
                    have later := ih (pos + 2) (by omega) (param ++ [e])
                    rw [behind'] at later
                    cases text : unescape rest with
                    | none =>
                        rw [text] at later
                        exact later
                    | some text' =>
                        rw [text, Option.map_some, List.append_assoc] at later
                        exact later
              · rw [if_neg fun both => slash both.1, if_neg slash,
                  if_neg slash]
                have later := ih (pos + 1) (by omega) (param ++ [c])
                rw [behind] at later
                cases text : unescape (d :: rest) with
                | none =>
                    rw [text] at later
                    exact later
                | some text' =>
                    rw [text, Option.map_some, List.append_assoc] at later
                    exact later

theorem parse_computes (s : List UInt8) : Computes (parse s) (unescape s) := by
  rw [parse]
  split
  · next empty =>
      rw [empty]
      exact .value []
  · have whole := @parseLoop_computes s s.length 0 (by omega) []
    rw [List.drop_zero] at whole
    cases text : unescape s with
    | none =>
        rw [text] at whole
        exact whole
    | some text' =>
        rw [text] at whole
        exact whole

/-- The text falls apart at the equals sign. -/
theorem separate_split {backslash : Bool} {line name value : List UInt8}
    (found : separate backslash line = some (name, value)) :
    line = name ++ 61 :: value := by
  induction line generalizing backslash name with
  | nil => cases found
  | cons c rest ih =>
      rw [separate] at found
      split at found
      · next here =>
          cases found
          rw [here.1]
          rfl
      · obtain ⟨⟨name', value'⟩, later, same⟩ :=
          Option.bind_eq_some_iff.mp found
        cases same
        rw [ih later]
        rfl

/-- A backslash in front of a position. -/
def backslashed (s : List UInt8) (pos : Nat) : Bool :=
  0 < pos ∧ s[pos - 1]? = some 92

theorem backslashed_succ {rest : List UInt8} {pos : Nat} {c : UInt8}
    (here : s.drop pos = c :: rest) :
    backslashed s (pos + 1) = decide (c = 92) := by
  have found : s[pos]? = some c := by
    have first := congrArg (·[0]?) here
    simpa using first
  simp [backslashed, found]

theorem separatorLoop_eq {turns : Nat} (pos : Nat)
    (enough : s.length ≤ turns + pos) :
    separatorLoop s turns pos =
      .ok ((separate (backslashed s pos) (s.drop pos)).map
        fun found => pos + found.1.length) := by
  induction turns generalizing pos with
  | zero =>
      have ended : ¬ pos < s.length := by omega
      have nothing : s.drop pos = [] := List.drop_eq_nil_of_le (by omega)
      rw [separatorLoop, if_neg ended, nothing, separate]
      rfl
  | succ turns ih =>
      rw [separatorLoop]
      cases here : s.drop pos with
      | nil =>
          have ended : ¬ pos < s.length := by
            have whole := List.drop_eq_nil_iff.mp here
            omega
          rw [if_neg ended, separate]
          rfl
      | cons c rest =>
          obtain ⟨first, within, behind⟩ := charAt_drop here
          have later := ih (pos + 1) (by omega)
          rw [behind, backslashed_succ here] at later
          have skipped : Option.map
              (fun found : List UInt8 × List UInt8 => pos + found.1.length)
              (do
                let (name, value) ← separate (c = 92) rest
                some (c :: name, value)) =
              (separate (c = 92) rest).map
                fun found => pos + 1 + found.1.length := by
            cases separate (c = 92) rest with
            | none => rfl
            | some found =>
                change some (pos + (found.1.length + 1)) =
                  some (pos + 1 + found.1.length)
                rw [Nat.add_assoc, Nat.add_comm 1]
          rw [if_pos within, first, ok_bind, separate]
          by_cases sign : c = 61
          · rw [if_pos sign]
            by_cases start : pos > 0
            · have previous : ∃ d, s[pos - 1]? = some d :=
                ⟨_, List.getElem?_eq_getElem (by omega)⟩
              obtain ⟨d, before⟩ := previous
              rw [if_pos start, charAt, before, ok_bind]
              have flag : backslashed s pos = decide (d = 92) := by
                simp [backslashed, before, start]
              rw [flag]
              by_cases slash : d = 92
              · rw [if_pos slash, if_neg (by simp [slash]), later, skipped]
              · rw [if_neg slash, if_pos ⟨sign, decide_eq_false slash⟩]
                rfl
            · have flag : backslashed s pos = false := by
                simp [backslashed, start]
              rw [if_neg start, if_pos ⟨sign, flag⟩]
              rfl
          · rw [if_neg sign, if_neg fun both => sign both.1, later, skipped]

end Loops

/-- What a line sets, unless an escape in it is unknown. -/
def setting (line : List UInt8) : Option (List UInt8 × List UInt8) :=
  match separate false line with
  | some (name, value) => do
      let key ← unescape (trim name)
      let text ← unescape (trim value)
      some (key, text)
  | none => do
      let key ← unescape (trim line)
      some (key, [])

theorem paramOf_computes (line : List UInt8) :
    Computes (paramOf line) (setting line) := by
  have separator := @separatorLoop_eq line line.length 0 (by omega)
  have start : backslashed line 0 = false := by simp [backslashed]
  rw [start, List.drop_zero] at separator
  rw [paramOf, separator, ok_bind, setting]
  cases found : separate false line with
  | none =>
      exact (parse_computes (trim line)).bind fun key => .value (key, [])
  | some parts =>
      obtain ⟨name, value⟩ := parts
      have split := separate_split found
      have front : substr line 0 (0 + name.length) = .ok name := by
        rw [substr, if_pos (Nat.zero_le _), List.drop_zero, Nat.zero_add, split,
          List.take_left]
      rw [Option.map_some]
      dsimp only
      rw [front, ok_bind]
      apply (parse_computes (trim name)).bind
      intro key
      split
      · next more =>
          have back : substr line (0 + name.length + 1) line.length =
              .ok value := by
            have fits : 0 + name.length + 1 ≤ line.length := by omega
            have rest : line.drop (0 + name.length + 1) = value := by
              rw [split, Nat.zero_add, List.drop_length_add_append]
              rfl
            have short : value.length ≤ line.length := by
              rw [split, List.length_append, List.length_cons]
              omega
            rw [substr, if_pos fits, rest, List.take_of_length_le short]
          rw [back, ok_bind]
          exact (parse_computes (trim value)).bind fun text =>
            .value (key, text)
      · next last =>
          have length := congrArg List.length split
          rw [List.length_append, List.length_cons] at length
          have nothing : value = [] :=
            List.eq_nil_of_length_eq_zero (by omega)
          rw [nothing]
          exact .value (key, [])

/-- A map and the vector of its keys are the list of the entries in the order of
the vector. -/
inductive TcConfigDomain
  | mk (name : List UInt8) (param : List (List UInt8 × List UInt8))
      (subdomain : List (List UInt8 × TcConfigDomain))
      (line : List (List UInt8))

abbrev Path := List (List UInt8)

namespace TcConfigDomain

def name : TcConfigDomain → List UInt8
  | .mk name _ _ _ => name

def param : TcConfigDomain → List (List UInt8 × List UInt8)
  | .mk _ param _ _ => param

def subdomain : TcConfigDomain → List (List UInt8 × TcConfigDomain)
  | .mk _ _ subdomain _ => subdomain

/-- `TC_ConfigDomain(sLine)` -/
def ofLine (sLine : List UInt8) : TcConfigDomain := .mk (trim sLine) [] [] []

def child (domain : TcConfigDomain) (name : List UInt8) :
    Option TcConfigDomain :=
  (domain.subdomain.find? (·.1 = name)).map Prod.snd

def addSubDomain (domain : TcConfigDomain) (name : List UInt8) :
    TcConfigDomain :=
  match domain with
  | .mk own param subdomain line =>
      if (domain.child name).isNone then
        .mk own param (subdomain ++ [(name, ofLine name)]) line
      else
        domain

/-- `setParamValue(name, value)`; the key comes last. -/
def setParamValue (name value : List UInt8) : TcConfigDomain → TcConfigDomain
  | .mk own param subdomain line =>
      .mk own (param.filter (·.1 ≠ name) ++ [(name, value)]) subdomain line

/-- `setParamValue(line)` -/
def setParamLine (sLine : List UInt8) :
    TcConfigDomain → Except Failure TcConfigDomain
  | .mk own param subdomain line =>
      if sLine = [] then
        .ok (.mk own param subdomain line)
      else do
        let (key, value) ← paramOf sLine
        pure ((TcConfigDomain.mk own param subdomain
          (line ++ [sLine])).setParamValue key value)

/-- The domain behind a pointer. -/
def find? (domain : TcConfigDomain) : Path → Option TcConfigDomain
  | [] => some domain
  | name :: path => do (← domain.child name).find? path

/-- An assignment to the domain behind a pointer. -/
def assign : TcConfigDomain → Path → TcConfigDomain → TcConfigDomain
  | _, [], new => new
  | .mk own param subdomain line, name :: path, new =>
      .mk own param
        (subdomain.map fun entry =>
          if entry.1 = name then (entry.1, entry.2.assign path new) else entry)
        line

end TcConfigDomain

/-- The lines that `getline` extracts. -/
def getlines : List UInt8 → List UInt8 → List (List UInt8)
  | [], [] => []
  | line, [] => [line]
  | line, c :: rest =>
      if c = 10 then line :: getlines [] rest else getlines (line ++ [c]) rest

/-- The root, and the stack of the domains that are open, its top first. -/
structure Parser where
  root : TcConfigDomain
  stack : List Path

/-- `stkTcCnfDomain.top()`, and the domain that it points to. -/
def Parser.top (parser : Parser) : Except Failure (Path × TcConfigDomain) :=
  match parser.stack with
  | [] => .error .emptyStack
  | path :: _ =>
      match parser.root.find? path with
      | some domain => .ok (path, domain)
      | none => .error .dangling

/-- A line in angle brackets, of which the closing one has been found. -/
def Parser.parseTag (parser : Parser) (line : List UInt8) (posl : Nat) :
    Except Failure Parser := do
  let second ← charAt line 1
  if second = 47 then
    let sName ← substr line 2 (posl - 2)
    match parser.stack with
    | [] =>
        .error (.TC_Config_Exception
          (ascii "[TC_Config::parse]:parse error! <" ++ sName ++
            ascii "> hasn't matched domain."))
    | _ :: rest =>
        let (_, top) ← parser.top
        if top.name ≠ sName then
          .error (.TC_Config_Exception
            (ascii "[TC_Config::parse]:parse error! <" ++ top.name ++
              ascii "> hasn't match <" ++ sName ++ ascii ">."))
        else
          pure { parser with stack := rest }
  else
    let name ← substr line 1 (posl - 1)
    let (path, top) ← parser.top
    pure ⟨parser.root.assign path (top.addSubDomain name),
      (path ++ [name]) :: parser.stack⟩

/-- The body of the loop of `parse`. -/
def Parser.parseLine (parser : Parser) (line : List UInt8) :
    Except Failure Parser := do
  let line := trim line
  if line.length = 0 then
    pure parser
  else
    let first ← charAt line 0
    if first = 35 then
      pure parser
    else if first = 60 then
      match line.findIdx? (· = 62) with
      | none =>
          .error (.TC_Config_Exception
            (ascii "[TC_Config::parse]:parse error! line : " ++ line))
      | some posl => parser.parseTag line posl
    else
      let (path, top) ← parser.top
      let domain ← top.setParamLine line
      pure { parser with root := parser.root.assign path domain }

/-- `TC_Config::parseString` -/
def parseString (buffer : List UInt8) : Except Failure TcConfigDomain := do
  let parser ← (getlines [] buffer).foldlM Parser.parseLine
    ⟨.ofLine [], [[]]⟩
  if parser.stack.length ≠ 1 then
    .error (.TC_Config_Exception
      (ascii "[TC_Config::parse]:parse error : hasn't match"))
  else
    pure parser.root

end TarsCpp.Config
