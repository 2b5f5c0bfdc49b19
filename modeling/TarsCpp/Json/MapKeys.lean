import TarsCpp.CString
import TarsCpp.Decimal

/-!
# Keys of maps as text

An object of JSON has texts for keys.  `JsonOutput::writeJson` makes them with
`TC_Common::tostr` and `JsonInput::readJson` reads them with
`TC_Common::strto`; both are specialised for some types, and not for the same
ones.
-/

namespace TarsCpp.Json

open CString

/-- The integral types but `bool`, with the widths of LP64. -/
inductive IntegerType
  | char
  | signedChar
  | unsignedChar
  | wchar
  | char16
  | char32
  | short
  | unsignedShort
  | int
  | unsignedInt
  | long
  | unsignedLong
  | longLong
  | unsignedLongLong
deriving DecidableEq, Repr

namespace IntegerType

def width : IntegerType → ℕ
  | char | signedChar | unsignedChar => 8
  | char16 | short | unsignedShort => 16
  | wchar | char32 | int | unsignedInt => 32
  | long | unsignedLong | longLong | unsignedLongLong => 64

def isSigned : IntegerType → Bool
  | char | signedChar | wchar | short | int | long | longLong => true
  | unsignedChar | char16 | char32 | unsignedShort | unsignedInt
  | unsignedLong | unsignedLongLong => false

/-- The types that streams take for characters. -/
def isCharacter : IntegerType → Bool
  | char | signedChar | unsignedChar => true
  | wchar | char16 | char32 | short | unsignedShort | int | unsignedInt
  | long | unsignedLong | longLong | unsignedLongLong => false

def number (type : IntegerType) (bits : BitVec type.width) : ℤ :=
  if type.isSigned then bits.toInt else bits.toNat

end IntegerType

/-- What a conversion fails with. -/
inductive Failure
  | TC_Json_Exception (buffer : String)
  | TC_AutoPtrNull_Exception
  /-- An uninitialized variable has been read. -/
  | undefined
  /-- There is no program: the instantiation is ill-formed. -/
  | illFormed
deriving DecidableEq, Repr

/-- `%c`, up to the first zero. -/
def formatChar (bits : BitVec 8) : List UInt8 :=
  if bits = 0 then [] else [⟨bits⟩]

/-- What `operator<<` writes. -/
def insertion (type : IntegerType) (bits : BitVec type.width) : List UInt8 :=
  if type.isCharacter then [UInt8.ofNat bits.toNat]
  else decimalInt (type.number bits)

def TC_Common.tostr : (type : IntegerType) → BitVec type.width → List UInt8
  | .char, bits => formatChar bits
  | .unsignedChar, bits => formatChar bits
  | type, bits => insertion type bits

def atoi (text : List UInt8) : ℤ :=
  toInt (strtol 10 text)

/-- `strtol` or `strtoul` to the base 16 behind `0x`, and else `decimal`. -/
def based {β : Type} (zero : β) (hexadecimal decimal : List UInt8 → β)
    (sStr : List UInt8) : β :=
  if sStr = [] then
    zero
  else if ascii "0x" <+: sStr then
    hexadecimal sStr
  else
    decimal sStr

/-- `operator>>` for a character: behind blanks, and nothing is stored at the
end. -/
def extractCharacter (sStr : List UInt8) : Except Failure (BitVec 8) :=
  match sStr.dropWhile isspace with
  | [] => .error .undefined
  | c :: _ => .ok c.toBitVec

/-- `operator>>` for an integer of 64 bits. -/
def extractUnsigned (sStr : List UInt8) : Except Failure (BitVec 64) :=
  match sStr.dropWhile isspace with
  | [] => .error .undefined
  | _ :: _ => .ok (BitVec.ofNat 64 (strtoul 10 sStr))

/-- `strto<int>`. -/
def strtoInt : List UInt8 → ℤ :=
  based 0 (fun sStr => toInt (strtol 16 sStr)) atoi

def TC_Common.strto : (type : IntegerType) → List UInt8 →
    Except Failure (BitVec type.width)
  | .char, sStr => .ok ((sStr.head?.map UInt8.toBitVec).getD 0)
  | .unsignedChar, sStr => .ok ((sStr.head?.map UInt8.toBitVec).getD 0)
  | .short, sStr =>
      .ok (BitVec.ofInt 16 (based 0 (strtol 16) atoi sStr))
  | .int, sStr => .ok (BitVec.ofInt 32 (strtoInt sStr))
  | .long, sStr => .ok (BitVec.ofInt 64 (based 0 (strtol 16) (strtol 10) sStr))
  | .longLong, sStr =>
      .ok (BitVec.ofInt 64 (based 0 (strtol 16) (strtol 10) sStr))
  | .unsignedShort, sStr =>
      .ok (BitVec.ofNat 16 (based 0 (strtoul 16) (strtoul 10) sStr))
  | .unsignedInt, sStr =>
      .ok (BitVec.ofNat 32 (based 0 (strtoul 16) (strtoul 10) sStr))
  | .unsignedLong, sStr =>
      .ok (BitVec.ofNat 64 (based 0 (strtoul 16) (strtoul 10) sStr))
  -- no specialisations: a stream reads the text, or a zero for none
  | .signedChar, sStr =>
      extractCharacter (if sStr = [] then ascii "0" else sStr)
  | .unsignedLongLong, sStr =>
      extractUnsigned (if sStr = [] then ascii "0" else sStr)
  -- streams of characters have no `operator>>` for these
  | .wchar, _ => .error .illFormed
  | .char16, _ => .error .illFormed
  | .char32, _ => .error .illFormed

inductive Container
  | map
  | unorderedMap
deriving DecidableEq, Repr

/-- A `map` from `char` or `unsigned char` reads its keys as `int`. -/
def readInteger (container : Container) (type : IntegerType)
    (text : List UInt8) : Except Failure (BitVec type.width) :=
  if container = .map ∧ (type = .char ∨ type = .unsignedChar) then
    .ok (BitVec.ofInt type.width (strtoInt text))
  else
    TC_Common.strto type text

def readEnum (container : Container) (underlying : IntegerType)
    (text : List UInt8) : Except Failure (BitVec underlying.width) :=
  if container = .map then
    .ok (BitVec.ofInt underlying.width (strtoInt text))
  else
    .error .illFormed

inductive Key
  | string
  | integer (type : IntegerType)
  | enum (isScoped : Bool) (underlying : IntegerType)
deriving DecidableEq, Repr

namespace Key

def Value : Key → Type
  | string => List UInt8
  | integer type => BitVec type.width
  | enum _ underlying => BitVec underlying.width

instance decidableEq : (key : Key) → DecidableEq key.Value
  | string => inferInstanceAs (DecidableEq (List UInt8))
  | integer type => inferInstanceAs (DecidableEq (BitVec type.width))
  | enum _ underlying => inferInstanceAs (DecidableEq (BitVec underlying.width))

/-- The instantiations for a map with such keys are well-formed: scoped
enumerations have no `operator<<`, and for an `unordered_map` an `int` is
assigned to an enumeration. -/
def compiles (container : Container) : Key → Bool
  | string => true
  | integer type => type ∉ [.wchar, .char16, .char32]
  | enum isScoped _ => !isScoped && container = .map

def tostr : (key : Key) → key.Value → List UInt8
  | string, value => value
  | integer type, value => TC_Common.tostr type value
  | enum _ underlying, value => insertion underlying value

/-- How `readJson` of a map reads a key. -/
def read (container : Container) : (key : Key) → List UInt8 →
    Except Failure key.Value
  | string, text => .ok text
  | integer type, text => readInteger container type text
  | enum _ underlying, text => readEnum container underlying text

end Key

end TarsCpp.Json
