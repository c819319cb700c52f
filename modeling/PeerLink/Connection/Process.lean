import PeerLink.Connection.Opening
import PeerLink.Wire.Inbound

/-!
# Driving a connection

`Connection.process` is one round of work: it queues a keep-alive if one is
due, reads what the transport has, gives every complete frame to whom it
belongs, and writes what is queued.  It never waits, and a fault of any kind
takes the connection down.
-/

namespace PeerLink
namespace Connection

variable {X Y : Type} [Capability X] [SubProtocol Y]

/-- Offers a frame to the modules.  The events of a frame that was taken are
folded into the record. -/
def offer (c : Connection X Y) (command : UInt8) (payload : Bytes) :
    Connection X Y × Option Failure :=
  let reply := Capability.offer c.state command payload c.modules
  let c := c.settle reply
  match reply.result with
  | .error failure => (c, some failure)
  | .ok true => ({ c with state := c.state.observeAll reply.output.events }, none)
  | .ok false => (c, none)

/-- Gives a frame to whom it belongs: keep-alives and base commands are told to
the owner, and all other commands are offered to the modules. -/
def dispatch (c : Connection X Y) : Frame → Connection X Y × Option Failure
  | .keepAlive => (c.tell .keepAlive, none)
  | .message command length payload =>
    match (Command.ofByte? command).bind Inbound.flag? with
    | some event => (c.tell event, none)
    | none =>
      match Inbound.read? command length payload with
      | some (.ok event) => (c.tell event, none)
      | some (.error _) => (c, some (.malformedPayload (.invalidCommand command)))
      | none => c.offer command payload

/-- Dispatches frames in order, up to the first that fails. -/
def dispatchAll (c : Connection X Y) : List Frame → Connection X Y × Option Failure
  | [] => (c, none)
  | frame :: rest =>
    match c.dispatch frame with
    | (c, some failure) => (c, some failure)
    | (c, none) => c.dispatchAll rest

/-- Dispatches all frames that are complete. -/
def consumeFrames (c : Connection X Y) : Connection X Y × Option Failure :=
  let drained := c.buffer.drain
  match { c with buffer := drained.rest }.dispatchAll drained.frames with
  | (c, some failure) => (c, some failure)
  | (c, none) => (c, drained.fault)

/-- Takes the peer's handshake if it is still to come, and all frames behind
it. -/
def consume (c : Connection X Y) : Connection X Y × Option Failure :=
  if c.state.handshakeReceived then c.consumeFrames
  else match c.buffer.takeHandshake with
    | .error failure => (c, some failure)
    | .ok none => (c, none)
    | .ok (some (handshake, buffer)) =>
      match { c with buffer }.acceptHandshake handshake with
      | (c, some failure) => (c, some failure)
      | (c, none) => c.consumeFrames

/-- Reads what the transport has, and counts it. -/
def receive (c : Connection X Y) : Connection X Y × Nat × Option Failure :=
  let arrival := c.transport.read c.config.readChunkSize
  ({ c with
    transport := { c.transport with reads := arrival.reads }
    buffer := c.buffer.feed arrival.data },
    arrival.data.length, arrival.fault)

/-- Writes what is queued, as far as the transport accepts it. -/
def flush (c : Connection X Y) : Connection X Y × Option Failure :=
  let progress := c.transport.write c.outbox.pending
  ({ c with
    transport := { c.transport with
      writes := progress.writes
      written := c.transport.written ++ progress.accepted }
    outbox := { c.outbox with pending := progress.pending } },
    progress.fault)

/-- Queues a keep-alive if the last one is too long ago.  Before the peer's
handshake there is nothing to keep alive. -/
def keepAlive (c : Connection X Y) (now : Nat) : Connection X Y :=
  if c.state.handshakeReceived && c.config.keepAliveInterval < now - c.lastKeepAlive then
    { c with outbox := c.outbox.pushFrame .keepAlive, lastKeepAlive := now }
  else c

/-- Tells that nothing was read, if the owner wants to know. -/
def noteIdle (c : Connection X Y) (received : Nat) : Connection X Y :=
  if received = 0 ∧ c.config.emitNoData then
    { c with outbox := c.outbox.pushEvent .noData }
  else c

/-- One round over an open transport. -/
def poll (c : Connection X Y) (now : Nat) : Connection X Y × Option Failure :=
  match (c.keepAlive now).receive with
  | (c, _, some failure) => (c, some failure)
  | (c, received, none) =>
    match c.consume with
    | (c, some failure) => (c, some failure)
    | (c, none) =>
      match c.flush with
      | (c, some failure) => (c, some failure)
      | (c, none) => (c.noteIdle received, none)

/-- One round of work.  The answer says whether the connection is still up. -/
def process (c : Connection X Y) (now : Nat) : Connection X Y × Bool :=
  if c.isDown then (c, false)
  else if !c.transport.connected then
    if c.state.phase = .connecting then (c, true) else (c.teardown, false)
  else match c.poll now with
    | (c, none) => (c, true)
    | (c, some _) => (c.teardown, false)

end Connection
end PeerLink
