import PeerLink.Address
import PeerLink.Bencode.Dict
import PeerLink.Bencode.Parser
import PeerLink.Bencode.Printer
import PeerLink.Failure

/-!
# Messages of the peer exchange

Peers tell each other which peers joined and left.  A message is a dictionary
with the compact addresses of either family, and a byte of flags for every
peer that joined.
-/

namespace PeerLink

open Bencode

/-- What is known about a peer that joined. -/
structure PeerFlags where
  encryption : Bool
  seed : Bool
  utp : Bool
  holepunch : Bool
  connectable : Bool
  deriving DecidableEq, Repr

namespace PeerFlags

/-- Nothing known. -/
def none : PeerFlags := ⟨false, false, false, false, false⟩

/-- The flags in the five low bits of a byte. -/
def ofByte (byte : UInt8) : PeerFlags :=
  ⟨byte &&& 1 != 0, byte &&& 2 != 0, byte &&& 4 != 0, byte &&& 8 != 0, byte &&& 16 != 0⟩

/-- The byte of the flags. -/
def toByte (flags : PeerFlags) : UInt8 :=
  (if flags.encryption then 1 else 0) ||| (if flags.seed then 2 else 0) |||
    (if flags.utp then 4 else 0) ||| (if flags.holepunch then 8 else 0) |||
    (if flags.connectable then 16 else 0)

/-- Flags read back from their byte. -/
@[simp]
theorem ofByte_toByte (flags : PeerFlags) : ofByte flags.toByte = flags := by
  obtain ⟨a, b, c, d, e⟩ := flags
  revert a b c d e
  decide

end PeerFlags

/-- A peer that joined. -/
structure ExchangedPeer where
  address : Address
  flags : PeerFlags
  deriving DecidableEq, Repr

/-- Which peers joined and left since the last message. -/
structure PeerExchange where
  added : List ExchangedPeer
  added6 : List ExchangedPeer
  dropped : List Address
  dropped6 : List Address
  deriving DecidableEq, Repr

namespace PeerExchange

/-- The message without peers. -/
def empty : PeerExchange := ⟨[], [], [], []⟩

/-- Notes that a peer joined, in the list of its family. -/
def add (message : PeerExchange) (peer : ExchangedPeer) : PeerExchange :=
  if peer.address.host.isV4 then { message with added := message.added ++ [peer] }
  else { message with added6 := message.added6 ++ [peer] }

/-- Notes that a peer left, in the list of its family. -/
def drop (message : PeerExchange) (address : Address) : PeerExchange :=
  if address.host.isV4 then { message with dropped := message.dropped ++ [address] }
  else { message with dropped6 := message.dropped6 ++ [address] }

/-- Whether there is nothing to tell. -/
def isEmpty (message : PeerExchange) : Bool :=
  message.added.isEmpty && message.added6.isEmpty && message.dropped.isEmpty &&
    message.dropped6.isEmpty

/-- The compact addresses one after another. -/
def compact (addresses : List Address) : Bytes := addresses.flatMap Address.compact

/-- Stores a list of addresses, unless it is empty. -/
def insertAddresses (d : Dict) (key : String) (addresses : List Address) : Dict :=
  if addresses.isEmpty then d
  else d.insert (Bytes.ofText key) (.bytes (compact addresses))

/-- Stores a list of peers in two entries, addresses and flags, unless it is
empty. -/
def insertPeers (d : Dict) (key flagsKey : String) (peers : List ExchangedPeer) : Dict :=
  if peers.isEmpty then d
  else (insertAddresses d key (peers.map (·.address))).insert (Bytes.ofText flagsKey)
    (.bytes (peers.map (·.flags.toByte)))

/-- The dictionary of a message.  Empty lists are left out. -/
def toDict (message : PeerExchange) : Dict :=
  let d := insertPeers Dict.empty "added" "added.f" message.added
  let d := insertPeers d "added6" "added6.f" message.added6
  let d := insertAddresses d "dropped" message.dropped
  insertAddresses d "dropped6" message.dropped6

/-- The payload of a message. -/
def encode (message : PeerExchange) : Bytes := (Value.dict message.toDict.toList).encode

/-- The byte string under a key.  Anything else counts as empty. -/
def field (entries : Entries) (key : String) : Bytes :=
  ((entries.get? key).bind Value.bytes?).getD []

/-- The peers with these addresses.  Those that have no flag byte have no flags. -/
def withFlags : List Address → Bytes → List ExchangedPeer
  | [], _ => []
  | address :: rest, [] => ⟨address, .none⟩ :: withFlags rest []
  | address :: rest, byte :: bytes => ⟨address, .ofByte byte⟩ :: withFlags rest bytes

/-- The message that the entries of a dictionary make up. -/
def ofEntries (entries : Entries) : PeerExchange where
  added := withFlags (Address.list4 (field entries "added")) (field entries "added.f")
  added6 := withFlags (Address.list6 (field entries "added6")) (field entries "added6.f")
  dropped := Address.list4 (field entries "dropped")
  dropped6 := Address.list6 (field entries "dropped6")

/-- The message that a payload carries. -/
def decode (payload : Bytes) : Except Failure PeerExchange := do
  match ← Failure.ofBencode (Bencode.decode payload) with
  | .dict entries => .ok (ofEntries entries)
  | _ => .error (.extension .notADictionary)

end PeerExchange
end PeerLink
