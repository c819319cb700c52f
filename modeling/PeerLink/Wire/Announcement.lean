import PeerLink.Wire.Frame
import PeerLink.Wire.Inbound

/-!
# Announcements of pieces

A bitfield with messages behind it announces pieces.  What a receiver learns
from both together is `Announcement.merged`; what the bitfield alone kept back
are the pieces named behind it.
-/

namespace PeerLink

/-- A frame with a bitfield, and the frames behind it. -/
structure Announcement where
  opening : Frame
  later : List Frame
  deriving DecidableEq, Repr

namespace Announcement

/-- Takes the first of some frames for the bitfield. -/
def ofFrames? : List Frame → Option Announcement
  | [] => none
  | opening :: later => some ⟨opening, later⟩

/-- The piece that a frame announces, if it announces one. -/
def piece? : Frame → Option Nat
  | .keepAlive => none
  | .message command length payload =>
    match Inbound.read? command length payload with
    | some (.ok (.havePiece index)) => some index.toNat
    | _ => none

/-- The pieces that are announced one by one, in order. -/
def pieces (announcement : Announcement) : List Nat := announcement.later.filterMap piece?

/-- Whether all later frames announce a piece. -/
def isPure (announcement : Announcement) : Bool :=
  announcement.later.all fun frame => frame.id? == some Command.havePiece.toByte

/-- Whether the pieces come in ascending order, none of them twice. -/
def isAscending (announcement : Announcement) : Bool :=
  decide (announcement.pieces.Pairwise (· < ·))

/-- The bitfield of the opening, read for this many pieces. -/
def sent (announcement : Announcement) (size : Nat) : Bitfield :=
  .ofBytes announcement.opening.payload size

/-- All pieces that are announced. -/
def merged (announcement : Announcement) (size : Nat) : Bitfield :=
  announcement.pieces.foldl Bitfield.set (announcement.sent size)

/-- Whether every piece that is announced one by one is held, and was left out
of the bitfield. -/
def hidesHeld (announcement : Announcement) (held : Bitfield) : Bool :=
  announcement.pieces.all fun index =>
    held.has index && !(announcement.sent held.size).has index

end Announcement
end PeerLink
