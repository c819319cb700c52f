import PeerLink.Text.Quoted
import PeerLink.Text.Utf8

/-!
# What can be wrong with bencoded data

Reading fails because the input does not follow the grammar; converting a
value fails because it is no integer or does not fit.  Each cause is a
constructor, and `Error.message` is its one wording.
-/

namespace PeerLink
namespace Bencode

/-- How many bits a native integer has.  Pointers have 64. -/
inductive IntegerWidth where
  | bits8 | bits16 | bits32 | bits64 | bits128 | pointer
  deriving DecidableEq, Repr

namespace IntegerWidth

/-- The number of bits. -/
def bits : IntegerWidth → Nat
  | bits8 => 8
  | bits16 => 16
  | bits32 => 32
  | bits64 | pointer => 64
  | bits128 => 128

/-- How messages call the width. -/
def name : IntegerWidth → String
  | pointer => "size"
  | width => width.bits.repr

/-- All widths. -/
def all : List IntegerWidth := [bits8, bits16, bits32, bits64, bits128, pointer]

end IntegerWidth

/-- The native integer types a bencoded integer can be asked to fit. -/
structure IntegerType where
  /-- Whether negative values are representable. -/
  signed : Bool
  width : IntegerWidth
  deriving DecidableEq, Repr

namespace IntegerType

/-- The type of a byte. -/
def byte : IntegerType := ⟨false, .bits8⟩

/-- The type of an index of a piece. -/
def word : IntegerType := ⟨false, .bits32⟩

/-- The type of all bencoded integers. -/
def full : IntegerType := ⟨true, .bits64⟩

/-- The first magnitude that is too great for the type. -/
def bound (type : IntegerType) : Nat :=
  1 <<< (if type.signed then type.width.bits - 1 else type.width.bits)

/-- Whether `n` is a value of the type. -/
def holds (type : IntegerType) (n : Int) : Bool :=
  if type.signed then -(type.bound : Int) ≤ n && n < type.bound
  else 0 ≤ n && n < type.bound

/-- How messages call the type: a letter for the sign, then the width. -/
def name (type : IntegerType) : String :=
  (if type.signed then "i" else "u") ++ type.width.name

/-- The type that messages call so. -/
def ofName? (name : String) : Option IntegerType :=
  ([false, true].flatMap fun signed => IntegerWidth.all.map (IntegerType.mk signed)).find?
    fun type => type.name == name

end IntegerType

/-- Why bencoded data was refused, or a value could not be converted. -/
inductive Error where
  /-- The input ended inside a value. -/
  | unexpectedEof
  /-- The text of an integer is no integer of 64 bits. -/
  | invalidInteger (text : Bytes)
  /-- The text of an integer has a leading zero, or is a negative zero. -/
  | leadingZeros
  /-- The length of a byte string is not a number of 64 bits. -/
  | invalidStringLength
  /-- No value, or no key, starts with this byte. -/
  | unexpectedByte (byte : UInt8)
  /-- The value is followed by more data. -/
  | trailingData
  /-- Containers nest deeper than the reader follows. -/
  | nestingTooDeep
  /-- A dictionary has this key twice. -/
  | duplicateKey (key : Bytes)
  /-- An integer does not fit the type asked for. -/
  | integerOutOfRange (value : Int64) (type : IntegerType)
  /-- An integer was asked for, and the value is none. -/
  | notAnInteger
  deriving DecidableEq, Repr

/-- The wording of an error. -/
def Error.message : Error → String
  | unexpectedEof => "unexpected end of input"
  | invalidInteger text => "invalid integer: " ++ Utf8.lossy text
  | leadingZeros => "invalid integer: leading zeros"
  | invalidStringLength => "invalid string length"
  | unexpectedByte byte => "unexpected character: " ++ Quoted.char byte
  | trailingData => "trailing data after value"
  | nestingTooDeep => "nesting too deep"
  | duplicateKey key => "duplicate dictionary key: " ++ Utf8.lossy key
  | integerOutOfRange value type =>
    "integer " ++ value.toInt.repr ++ " does not fit in " ++ type.name
  | notAnInteger => "expected integer"

end Bencode
end PeerLink
