import PeerLink.Connection.Basic

/-!
# Sending

Messages are queued and written by later rounds of work.  A connection that was
torn down takes no messages.  A large bitfield can be disguised: a few pieces
are left out of it and announced one by one right behind it.
-/

namespace PeerLink
namespace Connection

variable {X Y : Type}

/-- Queues a message and notes what it changes on our side. -/
def send (c : Connection X Y) (now : Nat) (message : Message) :
    Connection X Y × Except Failure Unit :=
  if c.isDown then (c, .error .connectionClosed)
  else
    ({ c with
      outbox := c.outbox.pushFrame message.toFrame
      state := c.state.noteSent message
      lastKeepAlive := if message = .keepAlive then now else c.lastKeepAlive }, .ok ())

/-- Queues messages in order, up to the first that is not taken. -/
def sendAll (c : Connection X Y) (now : Nat) :
    List Message → Connection X Y × Except Failure Unit
  | [] => (c, .ok ())
  | message :: rest =>
    match c.send now message with
    | (c, .error failure) => (c, .error failure)
    | (c, .ok ()) => c.sendAll now rest

/-- Bitfields of up to this many pieces are never disguised. -/
def undisguisedSize : Nat := 32

/-- The number of pieces that are picked for a disguise. -/
def disguiseSize : Nat := 16

/-- The messages that announce pieces while hiding those among `picks` in the
bitfield: the rest of the bitfield, and the hidden pieces in ascending order. -/
def disguise (pieces : Bitfield) (picks : List Nat) : List Message :=
  let hidden := (picks.filter pieces.has).eraseDups.mergeSort
  .bitfield (hidden.foldl Bitfield.clear pieces).toBytes ::
    hidden.map fun index => .havePiece (UInt32.ofNat index)

/-- Announces our pieces, disguised or not.  The pieces for a disguise are picked by
`sample`. -/
def sendBitfieldWith (sample : Nat → Picker → Nat → List Nat × Picker) (c : Connection X Y)
    (now : Nat) (pieces : Bitfield) (disguised : Bool) : Connection X Y × Except Failure Unit :=
  if disguised && undisguisedSize < pieces.size then
    let (picks, picker) := sample pieces.size c.picker (min disguiseSize pieces.size)
    { c with picker }.sendAll now (disguise pieces picks)
  else c.send now (.bitfield pieces.toBytes)

/-- Announces our pieces, disguised or not.  The settings say how the pieces for a disguise
are picked. -/
def sendBitfield (c : Connection X Y) (now : Nat) (pieces : Bitfield) (disguised : Bool) :
    Connection X Y × Except Failure Unit :=
  c.sendBitfieldWith c.config.sample now pieces disguised

variable [Capability X] [SubProtocol Y]

/-- Sends a payload to a sub-protocol of the peer, by way of the first
registry. -/
def sendFromRegistry? (c : Connection X Y) (name : String) (payload : Bytes) :
    Option (Connection X Y × Except Failure Unit) :=
  c.useRegistry? fun state registry => registry.send state name payload

/-- Sends a payload to a sub-protocol of the peer. -/
def sendExtended (c : Connection X Y) (name : String) (payload : Bytes) :
    Connection X Y × Except Failure Unit :=
  if c.isDown then (c, .error .connectionClosed)
  else match c.sendFromRegistry? name payload with
    | some sent => sent
    | none => (c, .error (.extension .noRegistry))

/-- Sends a message of the peer exchange, if there is a channel for it. -/
def sendPeerExchange? (c : Connection X Y) (message : PeerExchange) :
    Option (Connection X Y × Except Failure Unit) :=
  c.useSub? fun context sub =>
    match sub with
    | .peerExchange channel => some ((channel.send context message).mapNext .peerExchange)
    | _ => none

/-- Allows the peer its pieces, if there is a fast extension. -/
def grantAllowedFast? (c : Connection X Y) (host : Host) (pieceCount : UInt32) :
    Option (Connection X Y × Except Failure (List UInt32)) :=
  c.useModule? fun state m =>
    match m with
    | .fast fast => some ((fast.grant state host pieceCount).mapNext .fast)
    | _ => none

end Connection
end PeerLink
