import PeerLink.Connection.Picker
import PeerLink.Connection.Transport
import PeerLink.Module.AnyModule
import PeerLink.Wire.Reassembly

/-!
# Connections

A connection owns a transport, a record of what is known, its modules, and the
queues between them: frames that wait to be written, and events that wait for
the owner.  All operations are functions; those that depend on the time are
given it in milliseconds.
-/

namespace PeerLink

/-- The settings of one connection. -/
structure Config where
  /-- The time after which a keep-alive is sent, in milliseconds. -/
  keepAliveInterval : Nat
  /-- The greatest length of a frame that is accepted. -/
  maxFrameLength : Nat
  /-- About how many bytes are read at a time. -/
  readChunkSize : Nat
  /-- What the random picks start from. -/
  seed : UInt64
  /-- Whether reading nothing is an event. -/
  emitNoData : Bool
  /-- Picks different numbers below a bound at random, as many as wanted. -/
  sample : Nat → Picker → Nat → List Nat × Picker := Picker.sample

/-- The settings that are right for most connections. -/
def Config.standard : Config where
  keepAliveInterval := 60000
  maxFrameLength := 16777216
  readChunkSize := 32768
  seed := 0
  emitNoData := true

/-- What waits to be written, and what waits for the owner. -/
structure Outbox where
  /-- The bytes of frames, oldest first.  The first may be cut off at the front,
  as far as it was written. -/
  pending : List Bytes
  /-- The events, oldest first. -/
  events : List Event
  /-- The notes of modules, oldest first. -/
  notes : List String
  deriving DecidableEq, Repr

namespace Outbox

/-- Nothing waits. -/
def empty : Outbox := ⟨[], [], []⟩

/-- Queues bytes to be written. -/
def pushBytes (outbox : Outbox) (bytes : Bytes) : Outbox :=
  { outbox with pending := outbox.pending ++ [bytes] }

/-- Queues a frame. -/
def pushFrame (outbox : Outbox) (frame : Frame) : Outbox := outbox.pushBytes frame.encode

/-- Queues an event. -/
def pushEvent (outbox : Outbox) (event : Event) : Outbox :=
  { outbox with events := outbox.events ++ [event] }

/-- Queues all that a callback wants queued. -/
def add (outbox : Outbox) (output : Output) : Outbox where
  pending := outbox.pending ++ output.frames.map Frame.encode
  events := outbox.events ++ output.events
  notes := outbox.notes ++ output.notes

end Outbox

/-- One connection to a peer, with custom modules of type `X` and custom
sub-protocols of type `Y`. -/
structure Connection (X Y : Type) where
  transport : Transport
  config : Config
  state : ConnectionState
  modules : List (AnyModule X Y)
  outbox : Outbox
  buffer : Reassembly
  picker : Picker
  /-- When a keep-alive was last queued, or the connection made. -/
  lastKeepAlive : Nat
  /-- The info hash in the peer's handshake. -/
  remoteInfoHash : Option Digest

namespace Connection

variable {X Y : Type}

/-- A connection over a transport, made at the time `now`. -/
def new (transport : Transport) (config : Config) (now : Nat) : Connection X Y where
  transport := transport
  config := config
  state := { ConnectionState.initial with
    phase := if transport.connected then .connected else .connecting }
  modules := []
  outbox := .empty
  buffer := .empty config.maxFrameLength
  picker := ⟨config.seed⟩
  lastKeepAlive := now
  remoteInfoHash := none

/-- Whether the connection was torn down. -/
def isDown (c : Connection X Y) : Bool := c.state.phase == .disconnected

/-- Whether messages can get through. -/
def isConnected (c : Connection X Y) : Bool := !c.isDown && c.transport.connected

/-- Queues an event and folds it into the record. -/
def tell (c : Connection X Y) (event : Event) : Connection X Y :=
  { c with state := c.state.observe event, outbox := c.outbox.pushEvent event }

/-- Adds a module.  Its bits are part of our handshake, so none can be added
after that. -/
def addModule (c : Connection X Y) (m : AnyModule X Y) : Connection X Y × Except Failure Unit :=
  if c.state.handshakeSent then (c, .error (.invalidArgument .lateModule))
  else ({ c with modules := c.modules ++ [m] }, .ok ())

/-- Opens the transport. -/
def connect (c : Connection X Y) : Connection X Y × Except Failure Unit :=
  if c.isDown then (c, .error .connectionClosed)
  else match c.transport.connect with
    | (transport, .error failure) => ({ c with transport }, .error failure)
    | (transport, .ok ()) =>
      ({ c with transport, state := { c.state with phase := .connected } }, .ok ())

/-- Notes the number of pieces of the torrent. -/
def setPieceCount (c : Connection X Y) (count : Nat) : Connection X Y :=
  { c with state := c.state.setPieceCount count }

/-- Takes the oldest event off the queue. -/
def nextEvent (c : Connection X Y) : Connection X Y × Option Event :=
  ({ c with outbox := { c.outbox with events := c.outbox.events.tail } }, c.outbox.events.head?)

/-- Takes all events off the queue. -/
def drainEvents (c : Connection X Y) : Connection X Y × List Event :=
  ({ c with outbox := { c.outbox with events := [] } }, c.outbox.events)

/-- Takes all notes off the log. -/
def drainNotes (c : Connection X Y) : Connection X Y × List String :=
  ({ c with outbox := { c.outbox with notes := [] } }, c.outbox.notes)

/-- Collects the bytes that the transport accepted. -/
def collectWritten (c : Connection X Y) : Connection X Y × Bytes :=
  ({ c with transport := { c.transport with written := [] } }, c.transport.written)

/-- Lets something happen to the transport. -/
def stir (c : Connection X Y) (stimulus : Transport.Stimulus) : Connection X Y :=
  { c with transport := c.transport.stir stimulus }

variable [Capability X] [SubProtocol Y]

/-- Tears the connection down.  The first time, this closes the transport, ends
the modules, drops what waits to be written or read, and is told to the owner;
after that it changes nothing. -/
def teardown (c : Connection X Y) : Connection X Y :=
  if c.isDown then c
  else
    let (modules, notes) := Capability.teardownAll c.modules
    { c with
      transport := c.transport.close
      modules
      state := { c.state with phase := .disconnected }
      buffer := c.buffer.clear
      outbox :=
        { pending := []
          events := c.outbox.events ++ [.droppedConnection]
          notes := c.outbox.notes ++ notes } }

/-- Takes over the modules after a callback, and queues what they want queued. -/
def settle {α : Type} (c : Connection X Y) (reply : Reply (List (AnyModule X Y)) α) :
    Connection X Y :=
  { c with modules := reply.next, outbox := c.outbox.add reply.output }

/-- Runs an operation of the first module that has it. -/
def useModule? {α : Type} (c : Connection X Y)
    (act : ConnectionState → AnyModule X Y → Option (Reply (AnyModule X Y) α)) :
    Option (Connection X Y × Except Failure α) :=
  (Reply.first? (act c.state) c.modules).map fun reply => (c.settle reply, reply.result)

/-- Runs an operation of the first registry. -/
def useRegistry? {α : Type} (c : Connection X Y)
    (act : ConnectionState → Registry Y → Reply (Registry Y) α) :
    Option (Connection X Y × Except Failure α) :=
  c.useModule? fun state m =>
    match m with
    | .registry registry => some ((act state registry).mapNext .registry)
    | _ => none

/-- Runs an operation of the first sub-protocol of the first registry that has
it. -/
def useSub? {α : Type} (c : Connection X Y)
    (act : SubContext → AnySubProtocol Y → Option (Reply (AnySubProtocol Y) α)) :
    Option (Connection X Y × Except Failure α) :=
  let used? := c.useRegistry? fun state registry =>
    match registry.use? state act with
    | some reply => reply.map some
    | none => .ok registry none .none
  match used? with
  | some (c, .ok (some a)) => some (c, .ok a)
  | some (_, .ok none) => none
  | some (c, .error failure) => some (c, .error failure)
  | none => none

end Connection
end PeerLink
