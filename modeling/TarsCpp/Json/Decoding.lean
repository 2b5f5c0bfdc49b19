import TarsCpp.Json.MapKeys
import TarsCpp.Json.MergeObj
import TarsCpp.Json.Parser
import TarsCpp.Json.Typed

/-!
# Decoding of typed values

Every overload of `JsonInput::readJson`, for trees that may have null pointers
anywhere.  A fixed array comes with its capacity and with the number of its
elements that were read; a structure is read by the `readFromJson` that
`tars2cpp` generates, member by member, and a member that is missing from the
object is read from a null pointer.

A comparator, what a variable that is not initialized holds, and what a
structure is reset to, belong to the program that is compiled.
-/

namespace TarsCpp.JsonInput

open Json

inductive FloatingType
  | float
  | double
  | longDouble
deriving DecidableEq, Repr

/-- `TC_Common::strto` can be instantiated. -/
def isReadable (type : IntegerType) : Bool :=
  type ∉ [.wchar, .char16, .char32]

mutual

/-- The types of values. -/
inductive Ty
  | bool
  | integer (type : IntegerType)
  | floating (type : FloatingType)
  | enum (underlying : IntegerType)
  | string
  | vector (element : Ty)
  | set (element : Ty)
  | unorderedSet (element : Ty)
  | map (container : Container) (key : Key) (element : Ty)
  /-- A `map` with an enumeration for its keys. -/
  | enumMap (underlying : IntegerType) (element : Ty)
  | struct (members : Members)

/-- The types of keys. -/
inductive Key
  | string
  | bool
  | integer (type : IntegerType) (readable : isReadable type = true)
  | floating (type : FloatingType)
  | struct (members : Members)

/-- What a member of a structure is: fixed arrays are members only. -/
inductive Target
  | value (type : Ty)
  | chars (bufLen : UInt32)
  | elements (len : UInt32) (element : Ty)

inductive Members
  | nil
  | cons (name : FieldName) (isRequire : Bool) (target : Target)
      (rest : Members)

end

/-- `char buf[bufLen]` and the length that was read. -/
structure Chars (bufLen : UInt32) where
  buf : Vector UInt8 bufLen.toNat
  readLen : UInt32

/-- `T v[len]` and the number of elements that were read. -/
structure Elements (T : Type) (len : UInt32) where
  v : Vector T len.toNat
  readLen : UInt32

variable (Floating : FloatingType → Type)

mutual

def Ty.Value : Ty → Type
  | .bool => Bool
  | .integer type => BitVec type.width
  | .floating type => Floating type
  | .enum underlying => BitVec underlying.width
  | .string => List UInt8
  | .vector element => List (Ty.Value element)
  | .set element => List (Ty.Value element)
  | .unorderedSet element => List (Ty.Value element)
  | .map _ key element => List (Key.Value key × Ty.Value element)
  | .enumMap underlying element =>
      List (BitVec underlying.width × Ty.Value element)
  | .struct members => Members.Value members

def Key.Value : Key → Type
  | .string => List UInt8
  | .bool => Bool
  | .integer type _ => BitVec type.width
  | .floating type => Floating type
  | .struct members => Members.Value members

def Target.Value : Target → Type
  | .value type => Ty.Value type
  | .chars bufLen => Chars bufLen
  | .elements len element => Elements (Ty.Value element) len

def Members.Value : Members → Type
  | .nil => Unit
  | .cons _ _ target rest => Target.Value target × Members.Value rest

end

/-- What the compiled program and its libraries add. -/
structure Program (double : Type) where
  /-- `(T) value` -/
  cast : (type : FloatingType) → double → Floating type
  quiet_NaN : (type : FloatingType) → Floating type
  /-- `TC_Common::strto` of a floating point type. -/
  strtoFloating : (type : FloatingType) → List UInt8 → Floating type
  indeterminate : (type : IntegerType) → BitVec type.width
  indeterminateBool : Bool
  indeterminateFloating : (type : FloatingType) → Floating type
  resetDefautlt : (members : Members) → members.Value Floating →
    members.Value Floating
  /-- Neither is less than the other, or `operator==`. -/
  equivalent : (type : Ty) → type.Value Floating → type.Value Floating → Bool
  equivalentKeys : (key : Key) → key.Value Floating → key.Value Floating →
    Bool
  equivalentEnums : (underlying : IntegerType) → BitVec underlying.width →
    BitVec underlying.width → Bool

/-- What ends a call that does not return. -/
inductive Failure
  | TC_Json_Exception (buffer : String)
  | TC_AutoPtrNull_Exception
  /-- A store behind the end of a fixed array. -/
  | overrun
  | assertion
deriving DecidableEq, Repr

variable {Floating} {double : Type} [FloatingPoint double]
  (program : Program Floating double)

mutual

def Ty.fresh : (type : Ty) → type.Value Floating
  | .bool => program.indeterminateBool
  | .integer type => program.indeterminate type
  | .floating type => program.indeterminateFloating type
  | .enum underlying => program.indeterminate underlying
  | .string => ([] : List UInt8)
  | .vector element => ([] : List (element.Value Floating))
  | .set element => ([] : List (element.Value Floating))
  | .unorderedSet element => ([] : List (element.Value Floating))
  | .map _ key element =>
      ([] : List (key.Value Floating × element.Value Floating))
  | .enumMap underlying element =>
      ([] : List (BitVec underlying.width × element.Value Floating))
  | .struct members =>
      (program.resetDefautlt members (Members.fresh members) :
        members.Value Floating)

def Target.fresh : (target : Target) → target.Value Floating
  | .value type => Ty.fresh type
  | .chars bufLen =>
      ({ buf := Vector.replicate bufLen.toNat 0, readLen := 0 } :
        Chars bufLen)
  | .elements len element =>
      ({ v := Vector.replicate len.toNat (Ty.fresh element), readLen := 0 } :
        Elements (element.Value Floating) len)

def Members.fresh : (members : Members) → members.Value Floating
  | .nil => ()
  | .cons _ _ target rest => (Target.fresh target, Members.fresh rest)

end

/-- The value has another type: `x` stays as it is, or the type is asked of the
pointer. -/
def mismatch {α : Type} (what : String) (x : α) (p : JsonValuePtr double)
    (isRequire : Bool) : Except Failure α :=
  if isRequire then
    match p.getType with
    | none => .error .TC_AutoPtrNull_Exception
    | some type => .error (.TC_Json_Exception
        ("read " ++ what ++ "type mismatch, get type: " ++ toString type ++
          "."))
  else
    .ok x

/-- `memcpy(buf, value.c_str(), value.size())` -/
def memcpy {n : ℕ} (buf : Vector UInt8 n) (value : List UInt8) :
    Except Failure (Vector UInt8 n) :=
  if fits : value.length ≤ n then
    .ok ⟨(value ++ buf.toList.drop value.length).toArray, by simp [fits]⟩
  else
    .error .overrun

def readChars {bufLen : UInt32} (target : Chars bufLen)
    (p : JsonValuePtr double) (isRequire : Bool) :
    Except Failure (Chars bufLen) :=
  match p with
  | .string value =>
      if bufLen < UInt32.ofNat value.length then
        .error (.TC_Json_Exception ("invalid char * size, size: " ++
          toString (UInt32.ofNat value.length)))
      else do
        let buf ← memcpy target.buf value
        return { buf := buf, readLen := UInt32.ofNat value.length }
  | p => mismatch "'char *' " target p isRequire

/-- `readJson(v[i], *it)`, from `i` on. -/
def readFrom {T : Type} {n : ℕ}
    (read : T → JsonValuePtr double → Except Failure T) :
    Vector T n → ℕ → List (JsonValuePtr double) → Except Failure (Vector T n)
  | v, _, [] => .ok v
  | v, i, p :: value =>
      if inside : i < n then do
        let element ← read v[i] p
        readFrom read (v.set i element) (i + 1) value
      else
        .error .overrun

def readElements {T : Type} {len : UInt32}
    (read : T → JsonValuePtr double → Except Failure T)
    (target : Elements T len) (p : JsonValuePtr double) (isRequire : Bool) :
    Except Failure (Elements T len) :=
  match p with
  | .array value =>
      if len.toNat < value.length then
        .error (.TC_Json_Exception ("read 'T *' invalid size, size: " ++
          toString (UInt32.ofNat value.length)))
      else do
        let v ← readFrom read target.v 0 value
        return { v := v, readLen := UInt32.ofNat value.length }
  | p => mismatch "'T *' " target p isRequire

/-- `v.resize(size)` -/
def resize {T : Type} (fresh : T) (v : List T) (size : ℕ) : List T :=
  (v ++ List.replicate (size - v.length) fresh).take size

/-- `v.insert(t)` -/
def insert {T : Type} (equivalent : T → T → Bool) (v : List T) (t : T) :
    List T :=
  if v.any (equivalent t) then v else v ++ [t]

/-- `m.insert(pr)` -/
def insertPair {K V : Type} (equivalent : K → K → Bool) (m : List (K × V))
    (pr : K × V) : List (K × V) :=
  insert (fun first second => equivalent first.1 second.1) m pr

/-- `TC_Common::strto<K>` and what `map<Char, V>` and `map<unsigned char, V>`
do instead; nothing is stored where the stream has come to its end. -/
def readInteger (container : Container) (type : IntegerType)
    (text : List UInt8) : BitVec type.width :=
  match Json.readInteger container type text with
  | .ok first => first
  | .error _ => program.indeterminate type

/-- `TC_Common::strto<bool>`: `operator>>` of a stream for the text, or for a
zero if there is none. -/
def readBool (text : List UInt8) : Bool :=
  match text.dropWhile CString.isspace with
  | [] => if text = [] then false else program.indeterminateBool
  | digits => decide (CString.strtol 10 digits ≠ 0)

/-- `pObj->value[name]`; that the object gets an entry for a missing name makes
no difference to what is read. -/
def valueAt (value : Entries double) (name : FieldName) :
    JsonValuePtr double :=
  (Entries.find name value).getD .nullptr

mutual

def readValue : (type : Ty) → type.Value Floating → JsonValuePtr double →
    Bool → Except Failure (type.Value Floating)
  | .bool, c, p, isRequire =>
      match p with
      | .boolean value => .ok value
      | p => mismatch "" c p isRequire
  | .integer type, c, p, isRequire =>
      match p with
      | .num value => .ok (value.lvalue.setWidth type.width)
      | p => mismatch "" c p isRequire
  | .floating type, n, p, isRequire =>
      match p with
      | .num value => .ok (program.cast type value.value)
      | .null =>
          if isRequire then mismatch "" n (.null : JsonValuePtr double) true
          else .ok (program.quiet_NaN type)
      | p => mismatch "" n p isRequire
  | .enum underlying, c, p, isRequire =>
      match p with
      | .num value => .ok (value.lvalue.setWidth underlying.width)
      | p => mismatch "" c p isRequire
  | .string, s, p, isRequire =>
      match p with
      | .string value => .ok value
      | p => mismatch "'string' " s p isRequire
  | .vector element, v, p, isRequire =>
      match p with
      | .array value =>
          ((resize (element.fresh program) v value.length).zip value).mapM
            fun item => readValue element item.1 item.2 true
      | p => mismatch "'vector' " v p isRequire
  | .set element, v, p, isRequire | .unorderedSet element, v, p, isRequire =>
      match p with
      | .array value =>
          value.foldlM (fun v p => do
            let t ← readValue element (element.fresh program) p true
            return insert (program.equivalent element) v t) v
      | p => mismatch "'vector' " v p isRequire
  | .map container key element, m, p, isRequire =>
      match p with
      | .obj value =>
          value.foldlM (fun m entry => do
            let first ← readKey container key entry.1
            let second ←
              readValue element (element.fresh program) entry.2 true
            return insertPair (program.equivalentKeys key) m
              (first, second)) m
      | p => mismatch "'map' " m p isRequire
  | .enumMap underlying element, m, p, isRequire =>
      match p with
      | .obj value =>
          value.foldlM (fun m entry => do
            let first := BitVec.ofInt underlying.width (strtoInt entry.1)
            let second ←
              readValue element (element.fresh program) entry.2 true
            return insertPair (program.equivalentEnums underlying) m
              (first, second)) m
      | p => mismatch "'map' " m p isRequire
  | .struct members, v, p, isRequire =>
      match p with
      | .obj value =>
          readMembers members (program.resetDefautlt members v) value
      | p => mismatch "'Char' " v p isRequire

/-- The key of an entry; a structure is read from the text of the key. -/
def readKey (container : Container) : (key : Key) → List UInt8 →
    Except Failure (key.Value Floating)
  | .string, text => .ok text
  | .bool, text => .ok (readBool program text)
  | .integer type _, text => .ok (readInteger program container type text)
  | .floating type, text => .ok (program.strtoFloating type text)
  | .struct members, text =>
      match (getValue text : EStateM.Result _ _ (JsonValuePtr double)) with
      | .ok (.obj value) _ =>
          readMembers members
            (program.resetDefautlt members
              (program.resetDefautlt members (members.fresh program))) value
      | .ok p _ => .error (.TC_Json_Exception
          ("read 'struct' type mismatch, get type: " ++
            toString (p.getType.getD 0) ++ "."))
      | .error (.throws message) _ => .error (.TC_Json_Exception message)
      | .error _ _ => .error .assertion

def readTarget : (target : Target) → target.Value Floating →
    JsonValuePtr double → Bool → Except Failure (target.Value Floating)
  | .value type, x, p, isRequire => readValue type x p isRequire
  | .chars _, x, p, isRequire => readChars x p isRequire
  | .elements _ element, x, p, isRequire =>
      readElements (fun x p => readValue element x p true) x p isRequire

/-- The members of a structure that has been reset. -/
def readMembers : (members : Members) → members.Value Floating →
    Entries double → Except Failure (members.Value Floating)
  | .nil, _, _ => .ok ()
  | .cons name isRequire target rest, v, value => do
      let member ← readTarget target v.1 (valueAt value name) isRequire
      let others ← readMembers rest v.2 value
      return (member, others)

end

def readJson (target : Target) (x : target.Value Floating)
    (p : JsonValuePtr double) (isRequire : Bool) :
    Except Failure (target.Value Floating) :=
  readTarget program target x p isRequire

end TarsCpp.JsonInput
