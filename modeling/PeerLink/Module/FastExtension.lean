import PeerLink.Module.AllowedFast
import PeerLink.Module.Capability
import PeerLink.Wire.Inbound

/-!
# The fast extension

A peer with the fast extension can suggest pieces, announce all or none at
once, reject requests, and allow some pieces to be downloaded while choked.
The module reads those five commands and keeps what they tell.
-/

namespace PeerLink

/-- What the fast extension keeps about one peer. -/
structure FastExtension where
  /-- The pieces that the peer allowed us, in order. -/
  allowedByPeer : List UInt32
  /-- The pieces that we allowed the peer, in order. -/
  allowedToPeer : List UInt32
  /-- The pieces that the peer suggested, in order. -/
  suggested : List UInt32
  peerHasAll : Bool
  peerHasNone : Bool
  deriving DecidableEq, Repr

namespace FastExtension

/-- Nothing told yet. -/
def empty : FastExtension := ⟨[], [], [], false, false⟩

/-- Adds a piece behind the others, unless it is there. -/
def insertNew (pieces : List UInt32) (piece : UInt32) : List UInt32 :=
  if pieces.contains piece then pieces else pieces ++ [piece]

/-- Whether we may request the piece while choked. -/
def mayRequest (fast : FastExtension) (piece : UInt32) : Bool :=
  fast.allowedByPeer.contains piece

/-- Whether we serve the piece to the peer while it is choked. -/
def serves (fast : FastExtension) (piece : UInt32) : Bool :=
  fast.allowedToPeer.contains piece

/-- The fixed facts about the module. -/
def descriptor : Descriptor where
  name := "fast"
  reserved := .fastExtension
  commands := [Command.suggest, .haveAll, .haveNone, .reject, .allowedFast].map Command.toByte

/-- The event that a command of the fast extension stands for, if it is one. -/
def read? : Command → Bytes → Option (Except Failure Event)
  | .suggest, payload => some (.suggest <$> Inbound.pieceIndex "suggest" payload)
  | .haveAll, _ => some (.ok .haveAll)
  | .haveNone, _ => some (.ok .haveNone)
  | .reject, payload => some (.reject <$> Inbound.range "reject" payload)
  | .allowedFast, payload => some (.allowedFast <$> Inbound.pieceIndex "allowed fast" payload)
  | _, _ => none

/-- Notes what an event of the fast extension tells. -/
def note (fast : FastExtension) : Event → FastExtension
  | .suggest piece => { fast with suggested := insertNew fast.suggested piece }
  | .haveAll => { fast with peerHasAll := true, peerHasNone := false }
  | .haveNone => { fast with peerHasAll := false, peerHasNone := true }
  | .allowedFast piece => { fast with allowedByPeer := insertNew fast.allowedByPeer piece }
  | _ => fast

/-- Takes a frame with a command of the fast extension, and passes on any other. -/
def onCommand (fast : FastExtension) (command : UInt8) (payload : Bytes) :
    Reply FastExtension Bool :=
  match (Command.ofByte? command).bind (read? · payload) with
  | none => .ok fast false .none
  | some (.error failure) => .fail fast failure .none
  | some (.ok event) => .ok (fast.note event) true (.ofEvent event)

instance : Capability FastExtension where
  descriptor _ := descriptor
  onHandshake fast _ _ := .ok fast () .none
  onCommand fast _ := onCommand fast
  onTeardown _ := (empty, [])

/-- The number of pieces that a peer is allowed. -/
def grantSize : Nat := 10

/-- Allows a peer its pieces, and tells it about those that are new. -/
def grant (fast : FastExtension) (state : ConnectionState) (host : Host) (pieceCount : UInt32) :
    Reply FastExtension (List UInt32) :=
  match state.infoHash with
  | none => .fail fast (.extension .noInfoHash) .none
  | some infoHash =>
    let pieces := AllowedFast.generate infoHash host pieceCount grantSize
    let fresh := pieces.filter fun piece => !fast.allowedToPeer.contains piece
    .ok { fast with allowedToPeer := fast.allowedToPeer ++ fresh } pieces
      (.ofFrames (fresh.map fun piece => (Message.allowedFast piece).toFrame))

end FastExtension
end PeerLink
