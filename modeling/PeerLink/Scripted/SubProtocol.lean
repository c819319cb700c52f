import PeerLink.Module.SubProtocol
import PeerLink.Scripted.Module

/-!
# Scripted sub-protocols

The counterpart of a scripted module in the place of a sub-protocol.
-/

namespace PeerLink
namespace Scripted

/-- One action of a sub-protocol's script. -/
inductive SubAction where
  /-- Sends a payload to the peer's side of the sub-protocol. -/
  | send (payload : Bytes)
  | emit (event : Event)
  /-- Logs the phase of the connection. -/
  | notePhase
  /-- Ends the script with a failure. -/
  | fail (failure : Failure)
  deriving DecidableEq, Repr

/-- Runs actions in order, up to the first that fails. -/
def runSub {σ : Type} (next : σ) (context : SubContext) : List SubAction → Reply σ Unit
  | [] => .ok next () .none
  | .send payload :: rest =>
    match context.frame payload with
    | .ok frame => (runSub next context rest).after (.ofFrames [frame])
    | .error failure => .fail next failure .none
  | .emit event :: rest => (runSub next context rest).after (.ofEvent event)
  | .notePhase :: rest => (runSub next context rest).after (phaseNote context.state)
  | .fail failure :: _ => .fail next failure .none

/-- A sub-protocol that follows a script, or one that accepts every message and
does nothing. -/
inductive SubModule where
  | script (name : String) (fields : Bencode.Entries) (atHandshake atMessage : List SubAction)
  | bare (name : String)
  deriving DecidableEq, Repr

namespace SubModule

/-- The name under which the sub-protocol is announced. -/
def name : SubModule → String
  | script name _ _ _ => name
  | bare name => name

/-- Starts a log line with the name of the sub-protocol. -/
def note (s : SubModule) (text : String) : String := s.name ++ " " ++ text

/-- The id that the peer gave, or zero if it gave none, as the log shows it. -/
def remoteNote (context : SubContext) : String :=
  "remote=" ++ ((context.remoteId.map UInt8.toNat).getD 0).repr

instance : PeerLink.SubProtocol SubModule where
  name := name
  handshakeFields
    | script _ fields _ _, d => fields.foldl (fun d e => d.insert e.1 e.2) d
    | bare _, d => d
  onHandshake
    | s@(script _ _ atHandshake _), context, handshake =>
      (runSub s context atHandshake).after
        (.ofNote (s.note ("handshake " ++ remoteNote context ++
          " size=" ++ ((handshake.metadataSize.map Int64.toInt).getD (-1)).repr)))
    | s, _, _ => .ok s () .none
  onMessage
    | s@(script _ _ _ atMessage), context, payload =>
      (runSub s context atMessage).after
        (.ofNote (s.note ("message " ++ remoteNote context ++ " " ++ Hex.encode payload)))
    | s, _, _ => .ok s () .none
  onTeardown
    | s@(script ..) => (s, [s.note "teardown"])
    | s => (s, [])

end SubModule
end Scripted
end PeerLink
