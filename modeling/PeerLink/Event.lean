import PeerLink.Bitfield
import PeerLink.Block
import PeerLink.Extension.Handshake
import PeerLink.Extension.PeerExchange
import PeerLink.Wire.Handshake

/-!
# Events

What happens on a connection is told to its owner as a queue of events: one
for every message of the peer, and a few about the connection itself.
-/

namespace PeerLink

/-- Something that happened on a connection. -/
inductive Event where
  /-- The peer's handshake arrived and was accepted. -/
  | handshakeComplete (peerId : PeerId) (reserved : CapabilityBits)
  /-- The connection was torn down. -/
  | droppedConnection
  /-- There was nothing to read. -/
  | noData
  | keepAlive
  | choke
  | unchoke
  | interested
  | notInterested
  | havePiece (index : UInt32)
  | bitfield (pieces : Bitfield)
  | request (range : BlockRequest)
  | piece (block : Block)
  | cancel (range : BlockRequest)
  | port (number : UInt16)
  | suggest (index : UInt32)
  | haveAll
  | haveNone
  | reject (range : BlockRequest)
  | allowedFast (index : UInt32)
  | extendedHandshake (handshake : ExtensionHandshake)
  /-- All metadata arrived, and it has the info hash of the connection. -/
  | metadataReceived (metadata : Bytes)
  /-- The peer refused a piece of the metadata. -/
  | metadataRejected (piece : UInt32)
  | peerExchange (message : PeerExchange)
  deriving DecidableEq, Repr

end PeerLink
