import PeerLink.Extension.IdTable
import PeerLink.Module.AnySubProtocol

/-!
# The registry of sub-protocols

The registry is the module that carries extended messages.  Both sides number
their sub-protocols, and a message bears the number that its receiver gave: the
registry routes by our numbers, which follow the order of registration, and
sends by those in the peer's table.
-/

namespace PeerLink

open Bencode

/-- A sub-protocol under the name that it was registered with. -/
structure Registered (Y : Type) where
  name : String
  handler : AnySubProtocol Y

/-- The sub-protocols of one connection, and both tables of ids. -/
structure Registry (Y : Type) where
  /-- The sub-protocols in order of registration.  The first has our id 1. -/
  subs : List (Registered Y)
  /-- The ids that the peer gave. -/
  incoming : IdTable
  /-- The name and version that we announce. -/
  client : Option String
  /-- The length of the request queue that we announce. -/
  requestQueue : Option Int64
  /-- The last extension handshake of the peer. -/
  remote : Option ExtensionHandshake

namespace Registry

variable {Y : Type} [SubProtocol Y]

/-- A registry without sub-protocols. -/
def new : Registry Y := ⟨[], [], some "peerwire/0.1.0", some 250, none⟩

/-- The names with the ids that we gave them. -/
def ids (registry : Registry Y) : List (String × UInt8) :=
  registry.subs.zipIdx.map fun (sub, index) => (sub.name, UInt8.ofNat (index + 1))

/-- The id that we gave to a name.  The peer addresses us with it. -/
def outgoingId? (registry : Registry Y) (name : String) : Option UInt8 := registry.ids.lookup name

/-- The id that the peer gave to a name.  We address the peer with it. -/
def incomingId? (registry : Registry Y) (name : String) : Option UInt8 :=
  registry.incoming.id? name

/-- Adds a sub-protocol and gives it the next id.  Names are unique, and an id
is a byte. -/
def register (registry : Registry Y) (handler : AnySubProtocol Y) :
    Except Failure (UInt8 × Registry Y) :=
  let name := SubProtocol.name handler
  let id := registry.subs.length + 1
  if (registry.outgoingId? name).isSome then .error (.invalidArgument (.nameTaken name))
  else if 255 < id then .error (.invalidArgument .idsExhausted)
  else .ok (UInt8.ofNat id, { registry with subs := registry.subs ++ [⟨name, handler⟩] })

/-- Adds sub-protocols in order, up to the first that is refused. -/
def registerAll (registry : Registry Y) :
    List (AnySubProtocol Y) → Except Failure (Registry Y)
  | [] => .ok registry
  | handler :: rest =>
    match registry.register handler with
    | .error failure => .error failure
    | .ok (_, registry) => registry.registerAll rest

/-- The entries that the sub-protocols add to our handshake. -/
def fields (registry : Registry Y) : Dict :=
  registry.subs.foldl (fun d sub => SubProtocol.handshakeFields sub.handler d) .empty

/-- The handshake that we send: every sub-protocol with its id, in order of
registration. -/
def localHandshake (registry : Registry Y) : ExtensionHandshake :=
  let fields := registry.fields
  let sizeKey := Bytes.ofText "metadata_size"
  { ids := registry.ids
    client := registry.client
    yourIp := none
    requestQueue := registry.requestQueue
    metadataSize := (fields.get? sizeKey).bind Value.int?
    extra := (fields.erase sizeKey).toList }

/-- What a sub-protocol sees during a callback. -/
def context (registry : Registry Y) (state : ConnectionState) (name : String) : SubContext :=
  ⟨state, name, registry.incomingId? name⟩

/-- Sends a payload to a sub-protocol of the peer. -/
def send (registry : Registry Y) (state : ConnectionState) (name : String) (payload : Bytes) :
    Reply (Registry Y) Unit :=
  (registry.context state name).send registry payload

/-- Places a sub-protocol's next state under its name. -/
def renew (sub : Registered Y) {α : Type} (reply : Reply (AnySubProtocol Y) α) :
    Reply (Registered Y) α :=
  reply.mapNext fun handler => { sub with handler }

/-- Tells a sub-protocol about a handshake that gives it an id. -/
def greet (state : ConnectionState) (handshake : ExtensionHandshake) (sub : Registered Y) :
    Reply (Registered Y) Unit :=
  match handshake.id? sub.name with
  | none => .ok sub () .none
  | some id => renew sub (SubProtocol.onHandshake sub.handler ⟨state, sub.name, some id⟩ handshake)

/-- Takes a handshake of the peer: updates the table of its ids, reports the
handshake, and tells the sub-protocols that it lists, in order of
registration. -/
def receiveHandshake (registry : Registry Y) (state : ConnectionState) (payload : Bytes) :
    Reply (Registry Y) Unit :=
  match ExtensionHandshake.decode payload with
  | .error failure => .fail registry failure .none
  | .ok handshake =>
    let reply := Reply.each (greet state handshake) registry.subs
    let remote := match reply.result with
      | .ok () => some handshake
      | .error _ => registry.remote
    (reply.mapNext fun subs =>
        { registry with subs, incoming := registry.incoming.update handshake.ids, remote }).after
      (.ofEvent (.extendedHandshake handshake))

/-- Gives a message to the sub-protocol that has this id of ours. -/
def route (registry : Registry Y) (state : ConnectionState) (id : UInt8) (payload : Bytes) :
    Reply (Registry Y) Unit :=
  let index := id.toNat - 1
  match registry.subs[index]? with
  | none => .fail registry (.unroutable id) .none
  | some sub =>
    let reply := SubProtocol.onMessage sub.handler (registry.context state sub.name) payload
    reply.mapNext fun handler =>
      { registry with subs := registry.subs.set index { sub with handler } }

/-- Drops the failure to find who a message is for. -/
def forgiveUnroutable {σ : Type} (reply : Reply σ Unit) : Reply σ Bool :=
  match reply.result with
  | .error (.unroutable _) => .ok reply.next true reply.output
  | _ => reply.map fun _ => true

/-- Takes an extended message: a handshake, or a message for a sub-protocol. -/
def onCommand (registry : Registry Y) (state : ConnectionState) : Bytes → Reply (Registry Y) Bool
  | [] => .fail registry (.malformedPayload .missingExtendedId) .none
  | id :: payload =>
    if id = 0 then (registry.receiveHandshake state payload).map fun _ => true
    else forgiveUnroutable (registry.route state id payload)

/-- Ends all sub-protocols, in order. -/
def teardown (registry : Registry Y) : Registry Y × List String :=
  let ended := registry.subs.map fun sub =>
    let (handler, notes) := SubProtocol.onTeardown sub.handler
    ({ sub with handler }, notes)
  ({ registry with subs := ended.map Prod.fst }, ended.flatMap Prod.snd)

/-- The fixed facts about the module. -/
def descriptor : Descriptor where
  name := "extension_protocol"
  reserved := .extensionProtocol
  commands := [Command.extended.toByte]

instance : Capability (Registry Y) where
  descriptor _ := descriptor
  onHandshake registry _ _ :=
    .ok registry () (.ofFrames [(Message.extended 0 registry.localHandshake.encode).toFrame])
  onCommand registry state _ := registry.onCommand state
  onTeardown := teardown

/-- Runs an operation of the first sub-protocol that has it. -/
def use? {α : Type} (registry : Registry Y) (state : ConnectionState)
    (act : SubContext → AnySubProtocol Y → Option (Reply (AnySubProtocol Y) α)) :
    Option (Reply (Registry Y) α) :=
  let reply? := Reply.first? (fun sub : Registered Y =>
    (act (registry.context state sub.name) sub.handler).map (renew sub)) registry.subs
  reply?.map (·.mapNext fun subs => { registry with subs })

end Registry
end PeerLink
