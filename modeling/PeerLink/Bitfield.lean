import PeerLink.Bytes
import PeerLink.Octet

/-!
# Bitfields

A bitfield says of every piece of a torrent whether it is there.  Piece
`8 * j + k` is bit `k` of byte `j`, and bit 0 is the least significant one.
`Bitfield.WellSized` says what all constructors and operations keep: there are
just enough bytes, and bits behind the last piece are clear.
-/

namespace PeerLink

/-- Which of `size` pieces are there. -/
structure Bitfield where
  /-- Eight pieces a byte, in wire order. -/
  bytes : Array UInt8
  /-- The number of pieces. -/
  size : Nat
  deriving DecidableEq, Repr

namespace Bitfield

/-- The number of bytes that hold `size` pieces. -/
def byteCount (size : Nat) : Nat := (size + 7) / 8

/-- There are just enough bytes for the pieces, and no bit behind the last
piece is set. -/
structure WellSized (field : Bitfield) : Prop where
  /-- The bytes are as many as the pieces need. -/
  size_bytes : field.bytes.size = byteCount field.size
  /-- Bits that stand for no piece are clear. -/
  spare_clear : ∀ i, field.size ≤ i →
    (field.bytes[i / 8]?.any fun byte => Octet.bit byte (i % 8)) = false

/-- The first `n` bytes, with zero bytes behind them where there are fewer. -/
def padTo (n : Nat) (bytes : Array UInt8) : Array UInt8 :=
  bytes.take n ++ Array.replicate (n - bytes.size) 0

/-- Clears the bits of the last byte that stand for no piece. -/
def trim (field : Bitfield) : Bitfield :=
  if field.size % 8 = 0 then field
  else { field with
    bytes := field.bytes.modify (field.size / 8) fun byte => Octet.low byte (field.size % 8) }

/-- No piece of `size`. -/
def new (size : Nat) : Bitfield := ⟨Array.replicate (byteCount size) 0, size⟩

/-- All pieces of `size`. -/
def full (size : Nat) : Bitfield := trim ⟨Array.replicate (byteCount size) 0xFF, size⟩

/-- The pieces that raw bytes announce, padded with absent pieces or cut to
`size` of them. -/
def ofBytes (bytes : Bytes) (size : Nat) : Bitfield :=
  trim ⟨padTo (byteCount size) bytes.toArray, size⟩

/-- The pieces that a whole payload announces.  The payload does not say how
many pieces there are, so every bit counts as one. -/
def ofPayload (payload : Bytes) : Bitfield := ⟨payload.toArray, payload.length * 8⟩

/-- The bytes as they are sent. -/
def toBytes (field : Bitfield) : Bytes := field.bytes.toList

/-- Whether the piece is there.  No piece behind the last one is. -/
def has (field : Bitfield) (index : Nat) : Bool :=
  index < field.size &&
    field.bytes[index / 8]?.any fun byte => Octet.bit byte (index % 8)

/-- Adds a piece.  A piece out of range is ignored. -/
def set (field : Bitfield) (index : Nat) : Bitfield :=
  if index < field.size then
    { field with bytes := field.bytes.modify (index / 8) fun b => Octet.setBit b (index % 8) }
  else field

/-- Removes a piece.  A piece out of range is ignored. -/
def clear (field : Bitfield) (index : Nat) : Bitfield :=
  if index < field.size then
    { field with bytes := field.bytes.modify (index / 8) fun b => Octet.clearBit b (index % 8) }
  else field

/-- Changes the number of pieces.  New pieces are absent, and pieces behind the
new end are dropped. -/
def resize (field : Bitfield) (size : Nat) : Bitfield :=
  trim ⟨padTo (byteCount size) field.bytes, size⟩

/-- The number of pieces that are there. -/
def count (field : Bitfield) : Nat :=
  field.bytes.foldl (fun total byte => total + Octet.count byte) 0

/-- Whether all pieces are there. -/
def isComplete (field : Bitfield) : Bool := field.count == field.size

/-- Whether no piece is there. -/
def isEmpty (field : Bitfield) : Bool := field.bytes.all (· == 0)

/-- For every piece in order, whether it is there. -/
def toList (field : Bitfield) : List Bool := (List.range field.size).map field.has

/-- The pieces that are there, in ascending order. -/
def available (field : Bitfield) : List Nat := (List.range field.size).filter field.has

end Bitfield
end PeerLink
