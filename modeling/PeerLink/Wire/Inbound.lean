import PeerLink.Event
import PeerLink.Wire.Command

/-!
# Reading the base commands

Commands 0 to 3 are flags: what they say does not depend on a payload.
Commands 4 to 9 carry a payload of fixed layout, and one that is shorter is
refused.  All other commands belong to modules.
-/

namespace PeerLink
namespace Inbound

/-- What a command without payload says. -/
def flag? : Command → Option Event
  | .choke => some .choke
  | .unchoke => some .unchoke
  | .interested => some .interested
  | .notInterested => some .notInterested
  | _ => none

/-- Takes what a payload holds, or names the length that it lacks. -/
def orTooShort {α : Type} (what : String) (needed : Nat) (payload : Bytes) :
    Option α → Except Failure α
  | some a => .ok a
  | none => .error (.malformedPayload (.tooShort what needed payload.length))

/-- The index of a piece that a payload begins with. -/
def pieceIndex (what : String) (payload : Bytes) : Except Failure UInt32 :=
  orTooShort what 4 payload ((Bytes.takeUInt32? payload).map Prod.fst)

/-- The range that a payload begins with. -/
def range (what : String) (payload : Bytes) : Except Failure BlockRequest :=
  orTooShort what 12 payload (BlockRequest.decode? payload)

/-- The block that a payload holds. -/
def block (payload : Bytes) : Except Failure Block :=
  orTooShort "piece" 8 payload (Block.decode? payload)

/-- The port that a payload begins with. -/
def port (payload : Bytes) : Except Failure UInt16 :=
  orTooShort "port" 2 payload ((Bytes.takeUInt16? payload).map Prod.fst)

/-- The pieces that a payload announces, if it is as long as its frame declared. -/
def bitfield (length : UInt32) (payload : Bytes) : Except Failure Bitfield :=
  let declared := length.toNat - 1
  if payload.length = declared then .ok (Bitfield.ofPayload payload)
  else .error (.malformedPayload (.bitfieldLength declared payload.length))

/-- How the payload of a base command is read, given the declared length of its
frame. -/
def reader? : Command → Option (UInt32 → Bytes → Except Failure Event)
  | .havePiece => some fun _ payload => .havePiece <$> pieceIndex "have" payload
  | .bitfield => some fun length payload => .bitfield <$> bitfield length payload
  | .request => some fun _ payload => .request <$> range "request" payload
  | .piece => some fun _ payload => .piece <$> block payload
  | .cancel => some fun _ payload => .cancel <$> range "request" payload
  | .port => some fun _ payload => .port <$> port payload
  | _ => none

/-- What a frame with a base command says, if it is one. -/
def read? (id : UInt8) (length : UInt32) (payload : Bytes) : Option (Except Failure Event) :=
  ((Command.ofByte? id).bind reader?).map fun reader => reader length payload

end Inbound
end PeerLink
