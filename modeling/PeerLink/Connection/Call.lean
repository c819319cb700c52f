import PeerLink.Connection.Process
import PeerLink.Connection.Send

/-!
# Calls on a connection

What the owner of a connection can do with it is a value, a `Call`, and so is
what comes back, an `Answer`.  Every call happens at a time; together with what the
transport will give, the calls determine everything that a connection does.
-/

namespace PeerLink

/-- An operation of the owner of a connection. -/
inductive Call (X Y : Type) where
  | connect
  | handshake (infoHash : String) (peerId : Bytes)
  | process
  | disconnect
  | addModule (m : AnyModule X Y)
  | setPieceCount (count : Nat)
  | nextEvent
  | drainEvents
  | send (message : Message)
  | sendBitfield (pieces : Bitfield) (disguised : Bool)
  | sendExtended (name : String) (payload : Bytes)
  | sendFromRegistry (name : String) (payload : Bytes)
  | sendPeerExchange (message : PeerExchange)
  | grantAllowedFast (host : Host) (pieceCount : UInt32)

/-- What a call answers. -/
inductive Answer where
  /-- The call cannot fail and has nothing to tell. -/
  | done
  /-- The call succeeded or failed. -/
  | outcome (result : Except Failure Unit)
  /-- Whether the connection is still up. -/
  | status (up : Bool)
  /-- The oldest event, if there was one. -/
  | event (event : Option Event)
  /-- The events, oldest first. -/
  | events (events : List Event)
  /-- The pieces that the peer is allowed. -/
  | granted (result : Except Failure (List UInt32))
  /-- There is no module for the call. -/
  | absent

namespace Connection

variable {X Y : Type} [Capability X] [SubProtocol Y]

/-- Turns the result of an operation into an answer. -/
def answered {α : Type} (f : α → Answer) (outcome : Connection X Y × α) :
    Connection X Y × Answer := (outcome.1, f outcome.2)

/-- Turns the result of an operation of a module into an answer. -/
def answeredIfAny {α : Type} (c : Connection X Y) (f : α → Answer)
    (outcome? : Option (Connection X Y × α)) : Connection X Y × Answer :=
  match outcome? with
  | some outcome => answered f outcome
  | none => (c, .absent)

/-- Performs a call at the time `now`. -/
def perform (c : Connection X Y) (now : Nat) : Call X Y → Connection X Y × Answer
  | .connect => answered .outcome c.connect
  | .handshake infoHash peerId => answered .outcome (c.handshake infoHash peerId)
  | .process => answered .status (c.process now)
  | .disconnect => (c.teardown, .done)
  | .addModule m => answered .outcome (c.addModule m)
  | .setPieceCount count => (c.setPieceCount count, .done)
  | .nextEvent => answered .event c.nextEvent
  | .drainEvents => answered .events c.drainEvents
  | .send message => answered .outcome (c.send now message)
  | .sendBitfield pieces disguised =>
    answered .outcome (c.sendBitfield now pieces disguised)
  | .sendExtended name payload => answered .outcome (c.sendExtended name payload)
  | .sendFromRegistry name payload =>
    c.answeredIfAny .outcome (c.sendFromRegistry? name payload)
  | .sendPeerExchange message => c.answeredIfAny .outcome (c.sendPeerExchange? message)
  | .grantAllowedFast host pieceCount =>
    c.answeredIfAny .granted (c.grantAllowedFast? host pieceCount)

end Connection
end PeerLink
