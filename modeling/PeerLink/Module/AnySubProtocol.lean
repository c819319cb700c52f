import PeerLink.Module.MetadataExchange
import PeerLink.Module.PeerExchangeChannel

/-!
# All sub-protocols of a connection

A connection has the sub-protocols of this library and those of its owner,
whose type is a parameter.
-/

namespace PeerLink

/-- A sub-protocol of this library, or a custom one. -/
inductive AnySubProtocol (Y : Type) where
  | metadata (exchange : MetadataExchange)
  | peerExchange (channel : PeerExchangeChannel)
  | custom (sub : Y)

namespace AnySubProtocol

variable {Y : Type} [SubProtocol Y]

instance : SubProtocol (AnySubProtocol Y) where
  name
    | metadata s => SubProtocol.name s
    | peerExchange s => SubProtocol.name s
    | custom s => SubProtocol.name s
  handshakeFields
    | metadata s => SubProtocol.handshakeFields s
    | peerExchange s => SubProtocol.handshakeFields s
    | custom s => SubProtocol.handshakeFields s
  onHandshake
    | metadata s, c, h => (SubProtocol.onHandshake s c h).mapNext .metadata
    | peerExchange s, c, h => (SubProtocol.onHandshake s c h).mapNext .peerExchange
    | custom s, c, h => (SubProtocol.onHandshake s c h).mapNext .custom
  onMessage
    | metadata s, c, p => (SubProtocol.onMessage s c p).mapNext .metadata
    | peerExchange s, c, p => (SubProtocol.onMessage s c p).mapNext .peerExchange
    | custom s, c, p => (SubProtocol.onMessage s c p).mapNext .custom
  onTeardown
    | metadata s => (SubProtocol.onTeardown s).map .metadata id
    | peerExchange s => (SubProtocol.onTeardown s).map .peerExchange id
    | custom s => (SubProtocol.onTeardown s).map .custom id

end AnySubProtocol
end PeerLink
