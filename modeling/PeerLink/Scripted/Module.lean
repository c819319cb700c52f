import PeerLink.Module.Capability

/-!
# Scripted modules

A scripted module does what a list of actions says whenever it is called, and
logs every call.  It exercises a connection from the place of a module: what a
module can do in a callback, a script can do.
-/

namespace PeerLink
namespace Scripted

/-- One action of a script. -/
inductive Action where
  | send (message : Message)
  | sendFrame (frame : Frame)
  | emit (event : Event)
  /-- Logs the phase of the connection. -/
  | notePhase
  /-- Lets the call count as not handled.  Later actions still run. -/
  | pass
  /-- Ends the script with a failure. -/
  | fail (failure : Failure)
  deriving DecidableEq, Repr

/-- Logs the phase of the connection. -/
def phaseNote (state : ConnectionState) : Output := .ofNote ("phase " ++ state.phase.name)

/-- Runs actions in order.  The result says whether the call counts as handled,
which it does unless an action passes. -/
def run {σ : Type} (next : σ) (state : ConnectionState) (handled : Bool) :
    List Action → Reply σ Bool
  | [] => .ok next handled .none
  | .send message :: rest => (run next state handled rest).after (.ofFrames [message.toFrame])
  | .sendFrame frame :: rest => (run next state handled rest).after (.ofFrames [frame])
  | .emit event :: rest => (run next state handled rest).after (.ofEvent event)
  | .notePhase :: rest => (run next state handled rest).after (phaseNote state)
  | .pass :: rest => run next state false rest
  | .fail failure :: _ => .fail next failure .none

/-- A module that follows a script, or one that takes every frame it is offered
and does nothing. -/
inductive Module where
  | script (descriptor : Descriptor) (atHandshake atCommand : List Action)
  | bare (descriptor : Descriptor)
  deriving DecidableEq, Repr

namespace Module

/-- The fixed facts about the module. -/
def descriptor : Module → Descriptor
  | script d _ _ => d
  | bare d => d

/-- Starts a log line with the name of the module. -/
def note (m : Module) (text : String) : String := m.descriptor.name ++ " " ++ text

/-- Runs actions as if the module were called. -/
def act (m : Module) (state : ConnectionState) (actions : List Action) : Reply Module Bool :=
  run m state true actions

instance : Capability Module where
  descriptor := descriptor
  onHandshake
    | m@(script _ atHandshake _), state, handshake =>
      ((m.act state atHandshake).map fun _ => ()).after
        (.ofNote (m.note ("handshake " ++ Hex.encode handshake.encode)))
    | m, _, _ => .ok m () .none
  onCommand
    | m@(script _ _ atCommand), state, command, payload =>
      (m.act state atCommand).after
        (.ofNote (m.note ("command " ++ command.toNat.repr ++ " " ++ Hex.encode payload)))
    | m, _, _, _ => .ok m true .none
  onTeardown
    | m@(script ..) => (m, [m.note "teardown"])
    | m => (m, [])

end Module
end Scripted
end PeerLink
