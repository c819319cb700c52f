import PeerLink.RemotePieces
import PeerLink.Wire.Message

/-!
# The record of a connection

What is known about one connection: how far it got, who the two sides are,
who chokes whom, and what the peer has.  Events of the peer are folded into it
by `ConnectionState.observe`.
-/

namespace PeerLink

/-- How far a connection got. -/
inductive Phase where
  /-- The transport is not open yet. -/
  | connecting
  /-- The transport is open, and our handshake was not sent. -/
  | connected
  /-- Our handshake is queued, and the peer's has not arrived. -/
  | handshakeSent
  /-- Both handshakes are through. -/
  | established
  /-- The connection was torn down. -/
  | disconnected
  deriving DecidableEq, Repr

/-- The name of a phase. -/
def Phase.name : Phase → String
  | connecting => "Connecting"
  | connected => "Connected"
  | handshakeSent => "HandshakeSent"
  | established => "Established"
  | disconnected => "Disconnected"

/-- The position of a phase in the life of a connection. -/
def Phase.rank : Phase → Nat
  | connecting => 0
  | connected => 1
  | handshakeSent => 2
  | established => 3
  | disconnected => 4

/-- Who chokes whom and who is interested in whom. -/
structure Choking where
  amChoking : Bool
  amInterested : Bool
  peerChoking : Bool
  peerInterested : Bool
  deriving DecidableEq, Repr

/-- Both sides start out choking and not interested. -/
def Choking.initial : Choking := ⟨true, false, true, false⟩

/-- The record of one connection. -/
structure ConnectionState where
  phase : Phase
  localPeerId : Option PeerId
  remotePeerId : Option PeerId
  infoHash : Option Digest
  /-- The capability bits of our handshake. -/
  reserved : CapabilityBits
  remoteReserved : Option CapabilityBits
  /-- The pieces of the peer. -/
  pieces : RemotePieces
  handshakeSent : Bool
  handshakeReceived : Bool
  choking : Choking
  /-- Bytes of blocks that the peer sent. -/
  bytesDownloaded : UInt64
  /-- Bytes of blocks that we sent. -/
  bytesUploaded : UInt64
  deriving DecidableEq, Repr

namespace ConnectionState

/-- The record before anything happened. -/
def initial : ConnectionState where
  phase := .connecting
  localPeerId := none
  remotePeerId := none
  infoHash := none
  reserved := .none
  remoteReserved := none
  pieces := .unknown
  handshakeSent := false
  handshakeReceived := false
  choking := .initial
  bytesDownloaded := 0
  bytesUploaded := 0

/-- Folds an event of the peer into the record. -/
def observe (state : ConnectionState) (event : Event) : ConnectionState :=
  match event with
  | .choke => { state with choking := { state.choking with peerChoking := true } }
  | .unchoke => { state with choking := { state.choking with peerChoking := false } }
  | .interested => { state with choking := { state.choking with peerInterested := true } }
  | .notInterested => { state with choking := { state.choking with peerInterested := false } }
  | .piece block =>
    { state with
      bytesDownloaded := state.bytesDownloaded + UInt64.ofNat block.data.length }
  | event => { state with pieces := state.pieces.observe event }

/-- Folds several events into the record, in order. -/
def observeAll (state : ConnectionState) (events : List Event) : ConnectionState :=
  events.foldl observe state

/-- Notes the number of pieces of the torrent. -/
def setPieceCount (state : ConnectionState) (count : Nat) : ConnectionState :=
  { state with pieces := state.pieces.setPieceCount count }

/-- Moves on to the phase that the handshakes sent and received so far amount
to.  A connection that was torn down stays so. -/
def advancePhase (state : ConnectionState) : ConnectionState :=
  if state.phase = .disconnected then state
  else if state.handshakeSent then
    { state with phase := if state.handshakeReceived then .established else .handshakeSent }
  else state

/-- Notes what sending a message changes on our side. -/
def noteSent (state : ConnectionState) : Message → ConnectionState
  | .choke => { state with choking := { state.choking with amChoking := true } }
  | .unchoke => { state with choking := { state.choking with amChoking := false } }
  | .interested => { state with choking := { state.choking with amInterested := true } }
  | .notInterested => { state with choking := { state.choking with amInterested := false } }
  | .piece block =>
    { state with bytesUploaded := state.bytesUploaded + UInt64.ofNat block.data.length }
  | _ => state

end ConnectionState
end PeerLink
