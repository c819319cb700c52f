import PeerLink.ConnectionState

/-!
# Capability modules

A module adds a capability to one connection.  It contributes bits to our
handshake, claims commands that the connection does not read itself, and keeps
a state of its own.  Its callbacks are functions: they see the record of the
connection, and answer with a `Reply` that holds a result, the module's next
state and what is to be queued.
-/

namespace PeerLink

/-- The fixed facts about a module. -/
structure Descriptor where
  name : String
  /-- The bits that it adds to our handshake. -/
  reserved : CapabilityBits
  /-- The commands that it claims. -/
  commands : List UInt8
  deriving DecidableEq, Repr

/-- What a callback queues: frames for the peer, events for the owner, and notes
for a log. -/
structure Output where
  frames : List Frame
  events : List Event
  notes : List String
  deriving DecidableEq, Repr

namespace Output

/-- Nothing queued. -/
def none : Output := ⟨[], [], []⟩

/-- What two callbacks queue, one after the other. -/
def append (first second : Output) : Output :=
  ⟨first.frames ++ second.frames, first.events ++ second.events, first.notes ++ second.notes⟩

instance : Append Output := ⟨append⟩

/-- Queues frames. -/
def ofFrames (frames : List Frame) : Output := ⟨frames, [], []⟩

/-- Queues one event. -/
def ofEvent (event : Event) : Output := ⟨[], [event], []⟩

/-- Queues one note. -/
def ofNote (note : String) : Output := ⟨[], [], [note]⟩

end Output

/-- What a callback answers.  State and output count even when it fails. -/
structure Reply (σ α : Type) where
  result : Except Failure α
  next : σ
  output : Output

namespace Reply

variable {σ τ α β : Type}

/-- The callback succeeded. -/
def ok (next : σ) (a : α) (output : Output) : Reply σ α := ⟨.ok a, next, output⟩

/-- The callback failed. -/
def fail (next : σ) (failure : Failure) (output : Output) : Reply σ α :=
  ⟨.error failure, next, output⟩

/-- Changes the result of a callback that succeeded. -/
def map (f : α → β) (reply : Reply σ α) : Reply σ β :=
  ⟨reply.result.map f, reply.next, reply.output⟩

/-- Places the state of a module into a larger one. -/
def mapNext (f : σ → τ) (reply : Reply σ α) : Reply τ α :=
  ⟨reply.result, f reply.next, reply.output⟩

/-- Queues something in front of what the callback queued. -/
def after (output : Output) (reply : Reply σ α) : Reply σ α :=
  { reply with output := output ++ reply.output }

/-- Runs the callbacks of several modules in order, up to and including the first
that fails. -/
def each (act : σ → Reply σ Unit) : List σ → Reply (List σ) Unit
  | [] => .ok [] () .none
  | m :: rest =>
    let reply := act m
    match reply.result with
    | .error failure => .fail (reply.next :: rest) failure reply.output
    | .ok () => ((each act rest).mapNext (reply.next :: ·)).after reply.output

/-- Runs a callback of the first module that has one. -/
def first? (act : σ → Option (Reply σ α)) : List σ → Option (Reply (List σ) α)
  | [] => none
  | m :: rest =>
    match act m with
    | some reply => some (reply.mapNext (· :: rest))
    | none => (first? act rest).map (·.mapNext (m :: ·))

end Reply

/-- Types whose values can serve a connection as modules. -/
class Capability (σ : Type) where
  /-- The fixed facts about the module. -/
  descriptor : σ → Descriptor
  /-- Called when our handshake was queued. -/
  onHandshake : σ → ConnectionState → Handshake → Reply σ Unit
  /-- Offered a frame with a command that the module claims.  The answer says
  whether the module took the frame; a failure ends the connection. -/
  onCommand : σ → ConnectionState → UInt8 → Bytes → Reply σ Bool
  /-- Called when the connection is torn down.  The module may add to the log. -/
  onTeardown : σ → σ × List String

namespace Capability

variable {σ : Type} [Capability σ]

/-- Whether the module claims the command. -/
def claims (m : σ) (command : UInt8) : Bool := (descriptor m).commands.contains command

/-- Offers a frame to the modules that claim its command, in order, up to and
including the first that takes it or fails. -/
def offer (state : ConnectionState) (command : UInt8) (payload : Bytes) :
    List σ → Reply (List σ) Bool
  | [] => .ok [] false .none
  | m :: rest =>
    if claims m command then
      let reply := onCommand m state command payload
      match reply.result with
      | .error failure => .fail (reply.next :: rest) failure reply.output
      | .ok true => .ok (reply.next :: rest) true reply.output
      | .ok false =>
        ((offer state command payload rest).mapNext (reply.next :: ·)).after reply.output
    else (offer state command payload rest).mapNext (m :: ·)

/-- Ends all modules, in order. -/
def teardownAll : List σ → List σ × List String
  | [] => ([], [])
  | m :: rest =>
    let (m, notes) := onTeardown m
    let (rest, later) := teardownAll rest
    (m :: rest, notes ++ later)

/-- The bits that all modules add to our handshake. -/
def reserved (modules : List σ) : CapabilityBits :=
  modules.foldl (fun bits m => bits.union (descriptor m).reserved) .none

end Capability

instance : Capability Empty where
  descriptor m := m.elim
  onHandshake m := m.elim
  onCommand m := m.elim
  onTeardown m := m.elim

end PeerLink
