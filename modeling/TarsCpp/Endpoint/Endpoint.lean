import Mathlib.Data.List.DropRight
import TarsCpp.CString
import TarsCpp.Decimal
import TarsCpp.Words

/-!
# Endpoints and their text

`TC_Endpoint` with `parse`, `toString` and `sepEndpoint`.  `parse` picks the
words of its text one after another with `find_first_not_of` and
`find_first_of`; here it gets the list of the words.

`EndpointInfo`, and of `QueryEpBase` the text that `setEndPointToCache` stores
and `setEndpoints`, which reads it back.  A `set<EndpointInfo>` is the list of
its elements in the order of `_cmpDesc`.
-/

namespace TarsCpp.Endpoint

open CString

inductive EType
  | UDP
  | TCP
  | SSL
deriving DecidableEq

def EType.code : EType → Nat
  | .UDP => 0
  | .TCP => 1
  | .SSL => 2

inductive AUTH_TYPE
  | AUTH_TYPENONE
  | AUTH_TYPELOCAL
deriving DecidableEq

def AUTH_TYPE.code : AUTH_TYPE → Nat
  | .AUTH_TYPENONE => 0
  | .AUTH_TYPELOCAL => 1

/-- The fields before a constructor has run; `_type` and `_isIPv6`, which have
no initializer, are set by `parse` whenever it returns. -/
structure TC_Endpoint where
  host : List UInt8 := []
  port : BitVec 32 := 0
  timeout : BitVec 32 := 3000
  type : EType := .UDP
  grid : BitVec 32 := 0
  qos : BitVec 32 := 0
  weight : BitVec 32 := -1
  weighttype : BitVec 32 := 0
  authType : AUTH_TYPE := .AUTH_TYPENONE
  isIPv6 : Bool := false
deriving DecidableEq

/-- The message of a `TC_EndpointParse_Exception`. -/
abbrev Parsed := Except (List UInt8)

/-- `delim` of `parse`, and the default argument of `TC_Common::trim`. -/
def isBlank (c : UInt8) : Bool := c = 32 ∨ c = 9 ∨ c = 10 ∨ c = 13

def addressIsIPv6 (addr : List UInt8) : Bool := addr.contains 58

def EType.name : EType → List UInt8
  | .TCP => ascii "tcp"
  | .UDP => ascii "udp"
  | .SSL => ascii "ssl"

/-- ` -x ` and a number, if the condition holds. -/
def optionText (given : Bool) (letter : UInt8) (text : List UInt8) :
    List UInt8 :=
  if given then 32 :: 45 :: letter :: 32 :: text else []

def TC_Endpoint.toString (ep : TC_Endpoint) : List UInt8 :=
  ep.type.name ++
    optionText true 104 ep.host ++
    optionText true 112 (decimalInt ep.port.toInt) ++
    optionText (ep.timeout ≠ 0) 116 (decimalInt ep.timeout.toInt) ++
    optionText (ep.grid ≠ 0) 103 (decimalInt ep.grid.toInt) ++
    optionText (ep.qos ≠ 0) 113 (decimalInt ep.qos.toInt) ++
    optionText (0 < ep.weight.toInt) 119 (decimalInt ep.weight.toInt) ++
    optionText (ep.weighttype ≠ 0) 118 (decimal ep.weighttype.toNat) ++
    optionText (ep.authType.code ≠ 0) 101 (decimal ep.authType.code)

/-- Digits to the end of the stream, behind a sign or none. -/
def signedDigits (text : List UInt8) : Option (Bool × Nat) :=
  let signed := text.head? = some 45
  let digits := if signed ∨ text.head? = some 43 then text.tail else text
  if digits ≠ [] ∧ digits.all isDigit then
    some (signed, numbered 0 digits)
  else none

/-- `(t >> value) && t.eof()` for an `int`, which the number has to fit. -/
def extractInt (argument : List UInt8) : Option (BitVec 32) := do
  let (signed, n) ← signedDigits argument
  let number : Int := if signed then -n else n
  let value := BitVec.ofInt 32 number
  if value.toInt = number then some value else none

/-- The same for an `unsigned int`, which takes a sign and wraps. -/
def extractUnsigned (argument : List UInt8) : Option (BitVec 32) := do
  let (signed, n) ← signedDigits argument
  if n < 2 ^ 32 then
    some (if signed then 0 - BitVec.ofNat 32 n else BitVec.ofNat 32 n)
  else none

/-- `TC_Endpoint::parse`, a word, and the text. -/
def parseError (word : String) (str : List UInt8) : List UInt8 :=
  ascii ("TC_Endpoint::parse " ++ word ++ " error : ") ++ str

def orThrow {α : Type} (value : Option α) (message : List UInt8) : Parsed α :=
  match value with
  | some value => .ok value
  | none => .error message

/-- The `switch` over the letter of an option; other letters are ignored. -/
def setOption (str : List UInt8) (ep : TC_Endpoint) (letter : UInt8)
    (argument : List UInt8) : Parsed TC_Endpoint :=
  if letter = 104 then
    if argument = [] then .error (parseError "-h" str)
    else .ok { ep with host := argument }
  else if letter = 112 then do
    let port ← orThrow (extractInt argument) (parseError "-p" str)
    if port.toInt < 0 ∨ port.toInt > 65535 then .error (parseError "-p" str)
    else .ok { ep with port := port }
  else if letter = 116 then do
    let timeout ← orThrow (extractInt argument) (parseError "-t" str)
    .ok { ep with timeout := timeout }
  else if letter = 103 then do
    let grid ← orThrow (extractInt argument) (parseError "-g" str)
    .ok { ep with grid := grid }
  else if letter = 113 then do
    let qos ← orThrow (extractInt argument) (parseError "-q" str)
    .ok { ep with qos := qos }
  else if letter = 119 then do
    let weight ← orThrow (extractInt argument) (parseError "-w" str)
    .ok { ep with weight := weight }
  else if letter = 118 then do
    let weighttype ← orThrow (extractUnsigned argument) (parseError "-v" str)
    .ok { ep with weighttype := weighttype }
  else if letter = 101 then do
    let v ← orThrow (extractInt argument) (parseError "-e" str)
    if v = 0 then .ok { ep with authType := .AUTH_TYPENONE }
    else if v = 1 then .ok { ep with authType := .AUTH_TYPELOCAL }
    else .error (parseError "-e" str)
  else .ok ep

/-- An option is a hyphen and a letter. -/
def optionLetter : List UInt8 → Option UInt8
  | [45, letter] => some letter
  | _ => none

/-- The loop of `parse`: the word behind an option is its argument if it does
not begin with a hyphen. -/
def parseOptions (str : List UInt8) :
    List (List UInt8) → TC_Endpoint → Parsed TC_Endpoint
  | [], ep => .ok ep
  | [option], ep => do
      let letter ← orThrow (optionLetter option)
        (ascii "TC_Endpoint::parse error : " ++ str)
      setOption str ep letter []
  | option :: argument :: rest, ep => do
      let letter ← orThrow (optionLetter option)
        (ascii "TC_Endpoint::parse error : " ++ str)
      if argument.head? = some 45 then
        parseOptions str (argument :: rest) (← setOption str ep letter [])
      else
        parseOptions str rest (← setOption str ep letter argument)

def parseType (str desc : List UInt8) : Parsed EType :=
  if desc = ascii "tcp" then .ok .TCP
  else if desc = ascii "ssl" then .ok .SSL
  else if desc = ascii "udp" then .ok .UDP
  else .error (parseError "tcp or udp or ssl" str)

/-- A weight that is used gets a default and a maximum. -/
def TC_Endpoint.clampWeight (ep : TC_Endpoint) : TC_Endpoint :=
  if ep.weighttype ≠ 0 then
    let weight := if ep.weight = -1 then 100 else ep.weight
    { ep with weight := if weight.toInt > 100 then 100 else weight }
  else ep

/-- The end of `parse`, where the host is checked. -/
def TC_Endpoint.checkHost (ep : TC_Endpoint) (str : List UInt8) :
    Parsed TC_Endpoint :=
  if ep.host = [] then
    .error (ascii "TC_Endpoint::parse error : host must not be empty: " ++ str)
  else
    let host := if ep.host = ascii "*" then ascii "0.0.0.0" else ep.host
    .ok { ep with host := host, isIPv6 := addressIsIPv6 host }

def TC_Endpoint.parse (self : TC_Endpoint) (str : List UInt8) :
    Parsed TC_Endpoint :=
  match words isBlank str with
  | [] => .error (ascii "TC_Endpoint::parse error : " ++ str)
  | desc :: options => do
      let type ← parseType str desc
      let ep ← parseOptions str options
        { self with
          type := type
          grid := 0
          qos := 0
          weight := -1
          weighttype := 0
          authType := .AUTH_TYPENONE }
      ep.clampWeight.checkHost str

/-- `TC_Endpoint(const string& desc)` -/
def TC_Endpoint.ofDesc (desc : List UInt8) : Parsed TC_Endpoint :=
  TC_Endpoint.parse {} desc

/-- `TC_Common::trim` -/
def trim (text : List UInt8) : List UInt8 :=
  (text.dropWhile isBlank).rdropWhile isBlank

/-- `strncasecmp` with one of the three names. -/
def startsWithType (text : List UInt8) : Bool :=
  (text.take 3).map tolower ∈ [ascii "tcp", ascii "udp", ascii "ssl"]

/-- The locals of `sepEndpoint`, with no position for `string::npos`. -/
structure SepState where
  vEndpoints : List (List UInt8) := []
  flag : Bool := false
  startPos : Nat := 0
  sepPos : Option Nat := none

/-- `sepPos - startPos` bytes from `startPos` on; a difference below 0 is more
than what is left, and so is `npos`. -/
def piece (sEndpoints : List UInt8) (startPos : Nat) (sepPos : Option Nat) :
    List UInt8 :=
  match sepPos with
  | none => sEndpoints.drop startPos
  | some sepPos =>
      if sepPos < startPos then sEndpoints.drop startPos
      else (sEndpoints.drop startPos).take (sepPos - startPos)

/-- `if(!ep.empty()) vEndpoints.push_back(ep)` -/
def push (vEndpoints : List (List UInt8)) (ep : List UInt8) :
    List (List UInt8) :=
  if ep = [] then vEndpoints else vEndpoints ++ [ep]

/-- One turn of the loop, at `pos`, in front of `rest`. -/
def SepState.turn (sEndpoints : List UInt8) (pos : Nat) (rest : List UInt8)
    (st : SepState) : SepState :=
  if rest.head? = some 58 ∧ ¬ st.flag then
    { st with sepPos := some pos, flag := true }
  else if st.flag then
    if rest.head? = some 32 then st
    else if startsWithType rest then
      { st with
        vEndpoints := push st.vEndpoints
          (trim (piece sEndpoints st.startPos st.sepPos))
        startPos := pos
        flag := false }
    else { st with flag := false }
  else st

def sepLoop (sEndpoints : List UInt8) :
    List UInt8 → Nat → SepState → SepState
  | [], _, st => st
  | c :: rest, pos, st =>
      sepLoop sEndpoints rest (pos + 1) (st.turn sEndpoints pos (c :: rest))

def sepEndpoint (sEndpoints : List UInt8) : List (List UInt8) :=
  let st := sepLoop sEndpoints sEndpoints 0 {}
  push st.vEndpoints (piece sEndpoints st.startPos st.sepPos)

structure EndpointInfo where
  ep : TC_Endpoint
  setDivision : List UInt8
deriving DecidableEq

/-- `createCompareDesc` -/
def EndpointInfo.cmpDesc (info : EndpointInfo) : List UInt8 :=
  decimal info.ep.type.code ++ 58 :: (info.ep.host ++
    58 :: decimalInt info.ep.port.toInt)

/-- `set<EndpointInfo>::insert` -/
def insert (info : EndpointInfo) : List EndpointInfo → List EndpointInfo
  | [] => [info]
  | other :: infos =>
      if info.cmpDesc < other.cmpDesc then info :: other :: infos
      else if other.cmpDesc < info.cmpDesc then other :: insert info infos
      else other :: infos

/-- What `setEndPointToCache` writes for one endpoint. -/
def EndpointInfo.text (info : EndpointInfo) : List UInt8 :=
  info.ep.toString ++
    if info.setDivision = [] then [] else ascii " -s " ++ info.setDivision

/-- The loop of `setEndPointToCache`. -/
def cacheText (doEndpoints : List EndpointInfo) : List UInt8 :=
  doEndpoints.foldl (fun sEndpoints info =>
    sEndpoints ++ (if sEndpoints = [] then [] else [58]) ++ info.text) []

/-- `text.rfind(sep)` -/
def rfind (text sep : List UInt8) : Option Nat :=
  (List.range (text.length + 1)).reverse.find? fun pos =>
    sep.isPrefixOf (text.drop pos)

/-- The set division in the text of one endpoint. -/
def readSetDivision (text : List UInt8) : List UInt8 :=
  match rfind text (ascii " -s ") with
  | some pos => (trim (text.drop (pos + 4))).takeWhile (· ≠ 32)
  | none => []

/-- What one turn of the loop in `setEndpoints` inserts; an exception is logged
and the text left out. -/
def readInfo (direct : Bool) (text : List UInt8) : Option EndpointInfo :=
  match TC_Endpoint.ofDesc text with
  | .ok ep =>
      some { ep := ep
             setDivision := if direct then [] else readSetDivision text }
  | .error _ => none

inductive WeightType
  | E_LOOP
  | E_STATIC_WEIGHT
deriving DecidableEq

/-- The weight type that all endpoints read have in common. -/
def weightTypeOf (infos : List EndpointInfo) : WeightType :=
  let types := infos.map fun info => info.ep.weighttype
  if types.all (· = types.headD 0) ∧ types.headD 0 = 1 then .E_STATIC_WEIGHT
  else .E_LOOP

/-- `setEndpoints`: the set behind the insertions, and `_weightType`, which an
empty text leaves alone. -/
def setEndpoints (direct : Bool) (sEndpoints : List UInt8)
    (set : List EndpointInfo) (weightType : WeightType) :
    List EndpointInfo × WeightType :=
  if sEndpoints = [] then (set, weightType)
  else
    let infos := (sepEndpoint sEndpoints).filterMap (readInfo direct)
    (infos.foldl (fun set info => insert info set) set, weightTypeOf infos)

end TarsCpp.Endpoint
