import PeerLink.Block
import PeerLink.Wire.Command
import PeerLink.Wire.Frame

/-!
# Messages to send

What one side can tell the other after the handshakes, and the frame that each
message is sent as.
-/

namespace PeerLink

/-- A message to the peer. -/
inductive Message where
  | keepAlive
  | choke
  | unchoke
  | interested
  | notInterested
  /-- We have a piece. -/
  | havePiece (index : UInt32)
  /-- The pieces we have, as the bytes of a bitfield. -/
  | bitfield (bits : Bytes)
  | request (range : BlockRequest)
  | piece (block : Block)
  | cancel (range : BlockRequest)
  /-- The port of our node of the distributed hash table. -/
  | port (number : UInt16)
  | suggest (index : UInt32)
  | haveAll
  | haveNone
  | reject (range : BlockRequest)
  | allowedFast (index : UInt32)
  /-- A message of the sub-protocol that the peer gave this id. -/
  | extended (id : UInt8) (payload : Bytes)
  deriving DecidableEq, Repr

namespace Message

/-- The frame of a message. -/
def toFrame : Message → Frame
  | keepAlive => .keepAlive
  | choke => frame .choke []
  | unchoke => frame .unchoke []
  | interested => frame .interested []
  | notInterested => frame .notInterested []
  | havePiece index => frame .havePiece (Bytes.ofUInt32 index)
  | bitfield bits => frame .bitfield bits
  | request range => frame .request range.encode
  | piece block => frame .piece block.encode
  | cancel range => frame .cancel range.encode
  | port number => frame .port (Bytes.ofUInt16 number)
  | suggest index => frame .suggest (Bytes.ofUInt32 index)
  | haveAll => frame .haveAll []
  | haveNone => frame .haveNone []
  | reject range => frame .reject range.encode
  | allowedFast index => frame .allowedFast (Bytes.ofUInt32 index)
  | extended id payload => frame .extended (id :: payload)
where
  /-- The frame of a known command. -/
  frame (command : Command) (payload : Bytes) : Frame := .ofCommand command.toByte payload

/-- The bytes of a message. -/
def encode (message : Message) : Bytes := message.toFrame.encode

end Message
end PeerLink
