import PeerLink.Bencode.Dict
import PeerLink.Bencode.Parser
import PeerLink.Bencode.Printer
import PeerLink.Failure

/-!
# Messages about metadata

Metadata travels in pieces of 16 KiB.  A message is a dictionary that names its
type and a piece; behind the dictionary of a data message stand the bytes of
the piece, raw.
-/

namespace PeerLink

open Bencode

/-- What a message about metadata is for. -/
inductive MetadataMessageType where
  | request | data | reject
  deriving DecidableEq, Repr

namespace MetadataMessageType

/-- The number of a type. -/
def toByte : MetadataMessageType → UInt8
  | request => 0
  | data => 1
  | reject => 2

/-- The type of a number. -/
def ofByte? (byte : UInt8) : Option MetadataMessageType :=
  if byte = 0 then some request
  else if byte = 1 then some data
  else if byte = 2 then some reject
  else none

/-- The name of a type. -/
def name : MetadataMessageType → String
  | request => "Request"
  | data => "Data"
  | reject => "Reject"

end MetadataMessageType

/-- A message about one piece of the metadata. -/
structure MetadataMessage where
  type : MetadataMessageType
  piece : UInt32
  /-- The size of the whole metadata. -/
  totalSize : Option UInt32
  /-- The bytes of the piece. -/
  data : Option Bytes
  deriving DecidableEq, Repr

namespace MetadataMessage

/-- Asks for a piece. -/
def request (piece : UInt32) : MetadataMessage := ⟨.request, piece, none, none⟩

/-- Carries a piece. -/
def ofPiece (piece totalSize : UInt32) (data : Bytes) : MetadataMessage :=
  ⟨.data, piece, some totalSize, some data⟩

/-- Refuses a piece. -/
def reject (piece : UInt32) : MetadataMessage := ⟨.reject, piece, none, none⟩

/-- The dictionary of a message. -/
def toDict (message : MetadataMessage) : Dict :=
  Dict.empty
    |>.insert (Bytes.ofText "msg_type") (.int (Int64.ofNat message.type.toByte.toNat))
    |>.insert (Bytes.ofText "piece") (.int (Int64.ofNat message.piece.toNat))
    |>.insertSome "total_size" (message.totalSize.map fun n => .int (Int64.ofNat n.toNat))

/-- The payload of a message: its dictionary and, behind it, the bytes of the
piece. -/
def encode (message : MetadataMessage) : Bytes :=
  (Value.dict message.toDict.toList).encode ++ message.data.getD []

/-- What a dictionary holds under a key that it must have. -/
def require (entries : Entries) (key : String) : Except Failure Value :=
  match entries.get? key with
  | some value => .ok value
  | none => .error (.extension (.missingKey key))

/-- The type under the key for it. -/
def readType (entries : Entries) : Except Failure MetadataMessageType := do
  let byte ← Failure.ofBencode (← require entries "msg_type").toUInt8
  match MetadataMessageType.ofByte? byte with
  | some type => .ok type
  | none => .error (.extension (.unknownMessageType byte))

/-- The message that a dictionary and the bytes behind it make up.  Only a data
message takes the bytes. -/
def ofEntries (entries : Entries) (rest : Bytes) : Except Failure MetadataMessage := do
  let type ← readType entries
  let piece ← Failure.ofBencode (← require entries "piece").toUInt32
  let totalSize ← match entries.get? "total_size" with
    | none => .ok none
    | some value => (Failure.ofBencode value.toUInt32).map some
  return { type, piece, totalSize, data := if type = .data then some rest else none }

/-- The message that a payload carries. -/
def decode (payload : Bytes) : Except Failure MetadataMessage := do
  match ← Failure.ofBencode (Value.read payload) with
  | (.dict entries, rest) => ofEntries entries rest
  | _ => .error (.extension .notADictionary)

end MetadataMessage

namespace Metadata

/-- The size of a whole piece of metadata. -/
def pieceLength : Nat := 16384

/-- The number of pieces that metadata of this size has. -/
def pieceCount (size : Nat) : Nat := (size + (pieceLength - 1)) / pieceLength

/-- The size of a piece: whole ones, a shorter last one, and nothing behind it. -/
def pieceSize (piece size : Nat) : Nat := min (size - piece * pieceLength) pieceLength

/-- The bytes of a piece. -/
def piece (metadata : Bytes) (index : Nat) : Bytes :=
  (metadata.drop (index * pieceLength)).take pieceLength

end Metadata
end PeerLink
