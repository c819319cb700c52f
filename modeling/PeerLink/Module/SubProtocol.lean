import PeerLink.Module.Capability

/-!
# Sub-protocols

Named sub-protocols share the extended messages.  Like modules they keep a
state of their own and answer every callback with a `Reply`; what they can see
is a `SubContext`.
-/

namespace PeerLink

open Bencode

/-- What a sub-protocol sees during a callback. -/
structure SubContext where
  /-- The record of the connection. -/
  state : ConnectionState
  /-- The name under which the sub-protocol is registered. -/
  name : String
  /-- The id that the peer gave to the sub-protocol, if it gave one. -/
  remoteId : Option UInt8

namespace SubContext

/-- The extended message that carries a payload to the peer's side of the
sub-protocol.  There is none unless the peer gave it an id. -/
def frame (context : SubContext) (payload : Bytes) : Except Failure Frame :=
  match context.remoteId with
  | some id => .ok (Message.extended id payload).toFrame
  | none => .error (.extension (.unsupportedByPeer context.name))

/-- Sends one payload to the peer's side of the sub-protocol. -/
def send {σ : Type} (context : SubContext) (next : σ) (payload : Bytes) : Reply σ Unit :=
  match context.frame payload with
  | .ok frame => .ok next () (.ofFrames [frame])
  | .error failure => .fail next failure .none

end SubContext

/-- Types whose values can serve a connection as sub-protocols. -/
class SubProtocol (σ : Type) where
  /-- The name under which the sub-protocol is announced. -/
  name : σ → String
  /-- Adds entries to our extension handshake. -/
  handshakeFields : σ → Dict → Dict
  /-- Called when the peer announced the sub-protocol. -/
  onHandshake : σ → SubContext → ExtensionHandshake → Reply σ Unit
  /-- Called with the payload of an extended message for the sub-protocol. -/
  onMessage : σ → SubContext → Bytes → Reply σ Unit
  /-- Called when the connection is torn down.  The sub-protocol may add to the
  log. -/
  onTeardown : σ → σ × List String

instance : SubProtocol Empty where
  name s := s.elim
  handshakeFields s := s.elim
  onHandshake s := s.elim
  onMessage s := s.elim
  onTeardown s := s.elim

end PeerLink
