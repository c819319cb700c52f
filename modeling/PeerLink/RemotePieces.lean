import PeerLink.Event

/-!
# The pieces of the peer

What the peer has is learned from its messages, before or after the number of
pieces of the torrent is known.  As long as it is unknown, the bitfield grows
to the highest piece announced, and "everything" is remembered as such.
-/

namespace PeerLink

/-- What is known about the pieces of the peer. -/
structure RemotePieces where
  /-- The pieces it announced, if it announced any. -/
  bitfield : Option Bitfield
  /-- Whether it announced everything while the number of pieces was unknown. -/
  everything : Bool
  /-- The number of pieces of the torrent, once it is known. -/
  pieceCount : Option Nat
  deriving DecidableEq, Repr

namespace RemotePieces

/-- Nothing known. -/
def unknown : RemotePieces := ⟨none, false, none⟩

/-- Notes a single piece. -/
def addPiece (pieces : RemotePieces) (index : Nat) : RemotePieces :=
  if pieces.everything then pieces
  else
    let field := pieces.bitfield.getD (Bitfield.new (pieces.pieceCount.getD 0))
    let field :=
      if pieces.pieceCount.isNone && field.size ≤ index then field.resize (index + 1) else field
    { pieces with bitfield := some (field.set index) }

/-- Notes a whole bitfield in place of what was known. -/
def replace (pieces : RemotePieces) (field : Bitfield) : RemotePieces :=
  let field := match pieces.pieceCount with
    | some count => field.resize count
    | none => field
  { pieces with bitfield := some field, everything := false }

/-- Notes that the peer has everything. -/
def addAll (pieces : RemotePieces) : RemotePieces :=
  { pieces with
    bitfield := pieces.pieceCount.map Bitfield.full
    everything := pieces.pieceCount.isNone }

/-- Notes that the peer has nothing. -/
def removeAll (pieces : RemotePieces) : RemotePieces :=
  { pieces with
    bitfield := some (Bitfield.new (pieces.pieceCount.getD 0))
    everything := false }

/-- Notes what an event tells about the pieces of the peer. -/
def observe (pieces : RemotePieces) : Event → RemotePieces
  | .havePiece index => pieces.addPiece index.toNat
  | .bitfield field => pieces.replace field
  | .haveAll => pieces.addAll
  | .haveNone => pieces.removeAll
  | _ => pieces

/-- Notes the number of pieces of the torrent, and fits what is known to it. -/
def setPieceCount (pieces : RemotePieces) (count : Nat) : RemotePieces :=
  if pieces.everything then ⟨some (Bitfield.full count), false, some count⟩
  else ⟨pieces.bitfield.map (·.resize count), false, some count⟩

/-- Whether the peer announced the piece. -/
def has (pieces : RemotePieces) (index : Nat) : Bool :=
  pieces.everything || pieces.bitfield.any (·.has index)

end RemotePieces
end PeerLink
