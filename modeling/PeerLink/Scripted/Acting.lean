import PeerLink.Connection.Basic
import PeerLink.Scripted.SubProtocol

/-!
# Acting in the place of a module

The owner of a connection may have a scripted module act at any time.  What the
module queues then is not folded into the record of the connection.
-/

namespace PeerLink
namespace Scripted

/-- A connection with scripted modules and scripted sub-protocols. -/
abbrev Connection := PeerLink.Connection Module SubModule

namespace Connection

/-- Has the first scripted module act.  The result says whether the actions would
count as handling a frame. -/
def act? (c : Connection) (actions : List Action) :
    Option (Connection × Except Failure Bool) :=
  c.useModule? fun state m =>
    match m with
    | .custom m@(.script ..) => some ((m.act state actions).mapNext .custom)
    | _ => none

/-- What came of the actions of a sub-protocol. -/
structure SubOutcome where
  result : Except Failure Unit
  /-- The id that the peer gave to the sub-protocol. -/
  remoteId : Option UInt8

/-- Has the first scripted sub-protocol act. -/
def actSub? (c : Connection) (actions : List SubAction) :
    Option (Connection × Except Failure SubOutcome) :=
  c.useSub? fun context sub =>
    match sub with
    | .custom s@(.script ..) =>
      let reply := runSub s context actions
      some (.ok (.custom reply.next) ⟨reply.result, context.remoteId⟩ reply.output)
    | _ => none

end Connection
end Scripted
end PeerLink
