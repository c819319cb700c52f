import PeerLink.Module.SubProtocol

/-!
# The peer exchange channel

Sends and receives messages of the peer exchange.  Every message received is
told to the owner of the connection.
-/

namespace PeerLink

/-- One side of a peer exchange. -/
structure PeerExchangeChannel where
  /-- The number of messages sent. -/
  sent : Nat
  deriving DecidableEq, Repr

namespace PeerExchangeChannel

/-- The name of the sub-protocol. -/
def name : String := "ut_pex"

/-- A side that sent nothing yet. -/
def new : PeerExchangeChannel := ⟨0⟩

/-- Sends a message, unless it tells nothing. -/
def send (channel : PeerExchangeChannel) (context : SubContext) (message : PeerExchange) :
    Reply PeerExchangeChannel Unit :=
  if message.isEmpty then .ok channel () .none
  else match context.frame message.encode with
    | .error failure => .fail channel failure .none
    | .ok frame => .ok ⟨channel.sent + 1⟩ () (.ofFrames [frame])

/-- Reports a message that arrived. -/
def onMessage (channel : PeerExchangeChannel) (payload : Bytes) :
    Reply PeerExchangeChannel Unit :=
  match PeerExchange.decode payload with
  | .error failure => .fail channel failure .none
  | .ok message => .ok channel () (.ofEvent (.peerExchange message))

instance : SubProtocol PeerExchangeChannel where
  name _ := name
  handshakeFields _ fields := fields
  onHandshake channel _ _ := .ok channel () .none
  onMessage channel _ := onMessage channel
  onTeardown channel := (channel, [])

end PeerExchangeChannel
end PeerLink
