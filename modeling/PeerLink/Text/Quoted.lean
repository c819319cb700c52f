import PeerLink.Bytes

/-!
# Quoted bytes

Two ways to show bytes inside a message: a single byte as the Latin-1
character it stands for, between apostrophes, and a whole byte string between
double quotes.
-/

namespace PeerLink
namespace Quoted

/-- The apostrophe. -/
def apostrophe : Char := '\x27'

/-- Lowercase hexadecimal digits of a byte, without leading zeros. -/
def shortHex (byte : UInt8) : String :=
  String.ofList (Nat.toDigits 16 byte.toNat)

/-- Whether the Latin-1 character has no visible form of its own: the control
characters, the no-break space and the soft hyphen. -/
def isHidden (byte : UInt8) : Bool :=
  byte < 0x20 || (0x7F ≤ byte && byte ≤ 0xA0) || byte = 0xAD

/-- How a Latin-1 character is written between apostrophes. -/
def charBody (byte : UInt8) : String :=
  if byte = 0 then "\\0"
  else if byte = 9 then "\\t"
  else if byte = 10 then "\\n"
  else if byte = 13 then "\\r"
  else if byte = 39 then "\\\x27"
  else if byte = 92 then "\\\\"
  else if isHidden byte then "\\u\x7b" ++ shortHex byte ++ "\x7d"
  else String.singleton (Char.ofNat byte.toNat)

/-- A byte as a Latin-1 character between apostrophes. -/
def char (byte : UInt8) : String :=
  (String.singleton apostrophe ++ charBody byte).push apostrophe

/-- How a byte is written inside a quoted byte string. -/
def byteBody (byte : UInt8) : String :=
  if byte = 0 then "\\0"
  else if byte = 9 then "\\t"
  else if byte = 10 then "\\n"
  else if byte = 13 then "\\r"
  else if byte = 34 then "\\\""
  else if byte = 92 then "\\\\"
  else if 0x20 ≤ byte && byte ≤ 0x7E then String.singleton (Char.ofNat byte.toNat)
  else if byte < 16 then "\\x0" ++ shortHex byte
  else "\\x" ++ shortHex byte

/-- A byte string between double quotes, marked as bytes by a leading `b`. -/
def bytes (text : Bytes) : String :=
  text.foldl (fun shown byte => shown ++ byteBody byte) "b\"" ++ "\""

end Quoted
end PeerLink
