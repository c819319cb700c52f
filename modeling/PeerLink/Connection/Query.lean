import PeerLink.Connection.Basic

/-!
# Looking into a connection

The modules of a connection keep what they learned.  The queries here find the
first module of a kind, and leave the connection as it is.
-/

namespace PeerLink
namespace Connection

variable {X Y : Type}

/-- The first fast extension. -/
def fast? (c : Connection X Y) : Option FastExtension :=
  c.modules.findSome? fun
    | .fast fast => some fast
    | _ => none

/-- The first registry of sub-protocols. -/
def registry? (c : Connection X Y) : Option (Registry Y) :=
  c.modules.findSome? fun
    | .registry registry => some registry
    | _ => none

/-- The first sub-protocol of a kind in the first registry, with the id that the
peer gave to it. -/
def sub? {α : Type} (c : Connection X Y) (kind : AnySubProtocol Y → Option α) :
    Option (α × Option UInt8) :=
  c.registry?.bind fun registry =>
    registry.subs.findSome? fun sub =>
      (kind sub.handler).map fun a => (a, registry.incomingId? sub.name)

/-- The metadata exchange, with the id that the peer gave to it. -/
def metadataExchange? (c : Connection X Y) : Option (MetadataExchange × Option UInt8) :=
  c.sub? fun
    | .metadata exchange => some exchange
    | _ => none

/-- The peer exchange channel, with the id that the peer gave to it. -/
def peerExchange? (c : Connection X Y) : Option (PeerExchangeChannel × Option UInt8) :=
  c.sub? fun
    | .peerExchange channel => some channel
    | _ => none

end Connection
end PeerLink
