import PeerLink.Bencode.Dict
import PeerLink.Bencode.Parser
import PeerLink.Bencode.Printer
import PeerLink.Failure

/-!
# The extension handshake

Extended message 0 carries a dictionary.  Its table `m` numbers the
sub-protocols that the sender understands, a few other keys have a known
meaning, and all further keys are kept as they were sent.
-/

namespace PeerLink

open Bencode

/-- What one side says about its sub-protocols. -/
structure ExtensionHandshake where
  /-- The id of every sub-protocol, in the order of the table.  An id of 0 says
  that the sub-protocol is disabled. -/
  ids : List (String × UInt8)
  /-- The name and version of the sender. -/
  client : Option String
  /-- The address under which the sender sees the receiver. -/
  yourIp : Option Bytes
  /-- How many requests the sender queues. -/
  requestQueue : Option Int64
  /-- The size of the metadata, if the sender has it. -/
  metadataSize : Option Int64
  /-- All other entries. -/
  extra : Entries
  deriving DecidableEq, Repr

namespace ExtensionHandshake

/-- Nothing said at all. -/
def empty : ExtensionHandshake := ⟨[], none, none, none, none, []⟩

/-- The keys with a known meaning. -/
def knownKeys : List Bytes :=
  ["m", "v", "yourip", "reqq", "metadata_size"].map Bytes.ofText

/-- The table of ids as a dictionary.  A name that occurs twice keeps its first
place and its last id. -/
def table (ids : List (String × UInt8)) : Dict :=
  Dict.ofList (ids.map fun (name, id) => (Bytes.ofText name, .int (Int64.ofNat id.toNat)))

/-- The entries with a known meaning. -/
def knownEntries (h : ExtensionHandshake) : Dict :=
  Dict.empty
    |>.insert (Bytes.ofText "m") (.dict (table h.ids).toList)
    |>.insertSome "v" (h.client.map .text)
    |>.insertSome "yourip" (h.yourIp.map .bytes)
    |>.insertSome "reqq" (h.requestQueue.map .int)
    |>.insertSome "metadata_size" (h.metadataSize.map .int)

/-- The dictionary of the handshake.  An extra entry does not replace one with a
known meaning. -/
def toDict (h : ExtensionHandshake) : Dict :=
  h.extra.foldl (fun d e => if d.contains e.1 then d else d.insert e.1 e.2) h.knownEntries

/-- The payload of the handshake. -/
def encode (h : ExtensionHandshake) : Bytes := (Value.dict h.toDict.toList).encode

/-- The ids in a table.  Names that are no text are skipped, and an id that is no
byte is refused. -/
def readIds : Entries → Except Failure (List (String × UInt8))
  | [] => .ok []
  | (key, value) :: rest =>
    match Bytes.toText? key with
    | none => readIds rest
    | some name => do
      let id ← Failure.ofBencode value.toUInt8
      return (name, id) :: (← readIds rest)

/-- The handshake that the entries of a dictionary make up.  Without a table
there are no sub-protocols, and entries of the wrong kind count as absent. -/
def ofEntries (entries : Entries) : Except Failure ExtensionHandshake := do
  let ids ← match entries.get? "m" with
    | none => .ok []
    | some (.dict ids) => readIds ids
    | some _ => .error (.extension .tableNotADictionary)
  return {
    ids
    client := (entries.get? "v").bind Value.text?
    yourIp := (entries.get? "yourip").bind Value.bytes?
    requestQueue := (entries.get? "reqq").bind Value.int?
    metadataSize := (entries.get? "metadata_size").bind Value.int?
    extra := entries.filter fun e => !knownKeys.contains e.1 }

/-- The handshake that a payload carries. -/
def decode (payload : Bytes) : Except Failure ExtensionHandshake := do
  match ← Failure.ofBencode (Bencode.decode payload) with
  | .dict entries => ofEntries entries
  | _ => .error (.extension .notADictionary)

/-- The id of a sub-protocol, unless it is absent or disabled. -/
def id? (h : ExtensionHandshake) (name : String) : Option UInt8 :=
  (h.ids.lookup name).filter (· != 0)

end ExtensionHandshake
end PeerLink
