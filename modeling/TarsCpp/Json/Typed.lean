import Mathlib.Data.Finmap
import TarsCpp.Json.MapKeys
import TarsCpp.Json.Value

/-!
# Typed values as JSON

`JsonOutput::writeJson` and `JsonInput::readJson` for the types that are built
from `bool`, the integral types, enumerations, `string`, `vector`, `set`,
`unordered_set`, `map` and `unordered_map`.  In what order the containers, and
the object of a map, are iterated is left open.
-/

namespace TarsCpp.Json

open CString

inductive Ty
  | bool
  | integer (type : IntegerType)
  | enum (underlying : IntegerType)
  | string
  | vector (element : Ty)
  | set (element : Ty)
  | unorderedSet (element : Ty)
  | map (container : Container) (key : Key) (element : Ty)
deriving DecidableEq, Repr

namespace Ty

def Value : Ty → Type
  | bool => Bool
  | integer type => BitVec type.width
  | enum underlying => BitVec underlying.width
  | string => List UInt8
  | vector element => List element.Value
  | set element => Finset element.Value
  | unorderedSet element => Finset element.Value
  | map _ key element => Finmap fun _ : key.Value => element.Value

instance decidableEq : (type : Ty) → DecidableEq type.Value
  | bool => inferInstanceAs (DecidableEq Bool)
  | integer type => inferInstanceAs (DecidableEq (BitVec type.width))
  | enum underlying => inferInstanceAs (DecidableEq (BitVec underlying.width))
  | string => inferInstanceAs (DecidableEq (List UInt8))
  | vector element =>
      have := decidableEq element
      inferInstanceAs (DecidableEq (List element.Value))
  | set element =>
      have := decidableEq element
      inferInstanceAs (DecidableEq (Finset element.Value))
  | unorderedSet element =>
      have := decidableEq element
      inferInstanceAs (DecidableEq (Finset element.Value))
  | map _ key element =>
      have := decidableEq element
      inferInstanceAs (DecidableEq (Finmap fun _ : key.Value => element.Value))

/-- A value that has just been constructed. -/
def fresh : (type : Ty) → type.Value
  | bool => false
  | integer type => (0 : BitVec type.width)
  | enum underlying => (0 : BitVec underlying.width)
  | string => ([] : List UInt8)
  | vector element => ([] : List element.Value)
  | set element => (∅ : Finset element.Value)
  | unorderedSet element => (∅ : Finset element.Value)
  | map _ key element => (∅ : Finmap fun _ : key.Value => element.Value)

/-- `readJson` and `writeJson` can be instantiated. -/
def compiles : Ty → Bool
  | bool | integer _ | enum _ | string => true
  | vector element | set element | unorderedSet element => element.compiles
  | map container key element => key.compiles container && element.compiles

end Ty

/-- The orders in which containers are iterated. -/
structure Iteration (double : Type) where
  elements : (type : Ty) → Finset type.Value → List type.Value
  pairs : (key : Key) → (element : Ty) →
    (Finmap fun _ : key.Value => element.Value) →
    List (Σ _ : key.Value, element.Value)
  entries : Entries double → Entries double
  elements_val : ∀ type values,
    (elements type values : Multiset type.Value) = values.val
  pairs_entries : ∀ key element values,
    (pairs key element values : Multiset (Σ _ : key.Value, element.Value)) =
      values.entries
  entries_perm : ∀ value, (entries value).Perm value

variable {double : Type} [FloatingPoint double]

/-- `value.insert(make_pair(first, second))` -/
def Entries.insert (value : Entries double)
    (entry : List UInt8 × JsonValuePtr double) : Entries double :=
  if value.keys.contains entry.1 then value else value ++ [entry]

/-- `(Int32) v` -/
def asInt32 (underlying : IntegerType) (v : BitVec underlying.width) : ℤ :=
  toInt (underlying.number v)

def writeJson (iteration : Iteration double) :
    (type : Ty) → type.Value → JsonValuePtr double
  | .bool, b => .boolean b
  | .integer type, b => .num (.ofInt64 (BitVec.ofInt 64 (type.number b)))
  | .enum underlying, v =>
      .num (.ofInt64 (BitVec.ofInt 64 (asInt32 underlying v)))
  | .string, b => .string b
  | .vector element, v => .array (v.map (writeJson iteration element))
  | .set element, v | .unorderedSet element, v =>
      .array ((iteration.elements element v).map (writeJson iteration element))
  | .map _ key element, m =>
      .obj (iteration.entries ((iteration.pairs key element m).foldl
        (fun value pair => value.insert
          (key.tostr pair.1, writeJson iteration element pair.2)) []))

def JsonValuePtr.getType : JsonValuePtr double → Option ℕ
  | .nullptr => none
  | .string _ => some 0
  | .num _ => some 1
  | .obj _ => some 2
  | .array _ => some 3
  | .boolean _ => some 4
  | .null => some 5

/-- The value has another type: `x` stays as it is, or this is an error. -/
def mismatch {β : Type} (what : String) (x : β) (p : JsonValuePtr double)
    (isRequire : Bool) : Except Failure β :=
  if isRequire then
    match p.getType with
    | none => .error .TC_AutoPtrNull_Exception
    | some type => .error (.TC_Json_Exception
        ("read " ++ what ++ "type mismatch, get type: " ++ toString type ++ "."))
  else
    .ok x

/-- The elements of a vector that has been resized. -/
def readEach {β : Type} (read : β → JsonValuePtr double → Except Failure β)
    (fresh : β) : List β → List (JsonValuePtr double) →
    Except Failure (List β)
  | _, [] => .ok []
  | v, p :: value => do
      let first ← read (v.headD fresh) p
      let rest ← readEach read fresh v.tail value
      return first :: rest

/-- `readJson(t, *it)` and `v.insert(t)` -/
def readInsert {β : Type} [DecidableEq β]
    (read : JsonValuePtr double → Except Failure β) :
    Finset β → List (JsonValuePtr double) → Except Failure (Finset β)
  | v, [] => .ok v
  | v, p :: value => do
      let t ← read p
      readInsert read (insert t v) value

/-- `readJson(pr.second, iter->second)` and `m.insert(pr)` -/
def readPairs {κ β : Type} [DecidableEq κ]
    (readKey : List UInt8 → Except Failure κ)
    (read : JsonValuePtr double → Except Failure β) :
    (Finmap fun _ : κ => β) → Entries double →
    Except Failure (Finmap fun _ : κ => β)
  | m, [] => .ok m
  | m, entry :: value => do
      let first ← readKey entry.1
      let second ← read entry.2
      readPairs readKey read (if first ∈ m then m else m.insert first second)
        value

/-- `readJson` of a well-formed instantiation. -/
def readValue : (type : Ty) → type.Value → JsonValuePtr double → Bool →
    Except Failure type.Value
  | .bool, c, p, isRequire =>
      match p with
      | .boolean value => .ok value
      | p => mismatch "" c p isRequire
  | .integer type, c, p, isRequire =>
      match p with
      | .num value => .ok (value.lvalue.setWidth type.width)
      | p => mismatch "" c p isRequire
  | .enum underlying, c, p, isRequire =>
      match p with
      | .num value => .ok (value.lvalue.setWidth underlying.width)
      | p => mismatch "" c p isRequire
  | .string, s, p, isRequire =>
      match p with
      | .string value => .ok value
      | p => mismatch "'string' " s p isRequire
  | .vector element, v, p, isRequire =>
      match p with
      | .array value =>
          readEach (fun x p => readValue element x p true) element.fresh v value
      | p => mismatch "'vector' " v p isRequire
  | .set element, v, p, isRequire | .unorderedSet element, v, p, isRequire =>
      match p with
      | .array value =>
          readInsert (fun p => readValue element element.fresh p true) v value
      | p => mismatch "'vector' " v p isRequire
  | .map container key element, m, p, isRequire =>
      match p with
      | .obj value =>
          readPairs (key.read container)
            (fun p => readValue element element.fresh p true) m value
      | p => mismatch "'map' " m p isRequire

def readJson (type : Ty) (x : type.Value) (p : JsonValuePtr double)
    (isRequire : Bool) : Except Failure type.Value :=
  if type.compiles then readValue type x p isRequire
  else .error .illFormed

end TarsCpp.Json
