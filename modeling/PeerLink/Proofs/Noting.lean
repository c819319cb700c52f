import PeerLink.Proofs.ConnectionState

/-!
# What an event changes in the record

An event of the peer is about few fields of the record of a connection.  `Notes` goes through
the record field by field and says what becomes of each, and `RemotePieces.Learns` does so
for the pieces of the peer.  Nothing is left open, so there is just one record that an event
leads to: `ConnectionState.notes_iff`.
-/

namespace PeerLink

namespace Event

/-- Whether the peer chokes us, if the event is about that. -/
def choking? : Event → Option Bool
  | .choke => some true
  | .unchoke => some false
  | _ => none

/-- Whether the peer is interested in us, if the event is about that. -/
def interest? : Event → Option Bool
  | .interested => some true
  | .notInterested => some false
  | _ => none

/-- The number of bytes in the block that the event brings. -/
def blockBytes : Event → UInt64
  | .piece block => UInt64.ofNat block.data.length
  | _ => 0

/-- The event says which pieces the peer has. -/
def IsOfPieces : Event → Prop
  | .havePiece _ | .bitfield _ | .haveAll | .haveNone => True
  | _ => False

end Event

namespace RemotePieces

/-- From what is known about the pieces of the peer to what is known behind an event. -/
inductive Learns : RemotePieces → Event → RemotePieces → Prop
  /-- A peer that has everything has nothing to add. -/
  | pieceOfAll (held : Option Bitfield) (count : Option Nat) (index : UInt32) :
    Learns ⟨held, true, count⟩ (.havePiece index) ⟨held, true, count⟩
  | pieceOfKnown (held : Option Bitfield) (count : Nat) (index : UInt32) :
    Learns ⟨held, false, some count⟩ (.havePiece index)
      ⟨some ((held.getD (.new count)).set index.toNat), false, some count⟩
  | pieceInside (held : Option Bitfield) (index : UInt32)
      (hinside : index.toNat < (held.getD (.new 0)).size) :
    Learns ⟨held, false, none⟩ (.havePiece index)
      ⟨some ((held.getD (.new 0)).set index.toNat), false, none⟩
  /-- The bitfield grows to a piece behind its end. -/
  | pieceBehind (held : Option Bitfield) (index : UInt32)
      (hbehind : (held.getD (.new 0)).size ≤ index.toNat) :
    Learns ⟨held, false, none⟩ (.havePiece index)
      ⟨some (((held.getD (.new 0)).resize (index.toNat + 1)).set index.toNat), false, none⟩
  | bitfield (held : Option Bitfield) (everything : Bool) (field : Bitfield) :
    Learns ⟨held, everything, none⟩ (.bitfield field) ⟨some field, false, none⟩
  | bitfieldOfKnown (held : Option Bitfield) (everything : Bool) (count : Nat)
      (field : Bitfield) :
    Learns ⟨held, everything, some count⟩ (.bitfield field)
      ⟨some (field.resize count), false, some count⟩
  | all (held : Option Bitfield) (everything : Bool) :
    Learns ⟨held, everything, none⟩ .haveAll ⟨none, true, none⟩
  | allOfKnown (held : Option Bitfield) (everything : Bool) (count : Nat) :
    Learns ⟨held, everything, some count⟩ .haveAll ⟨some (.full count), false, some count⟩
  | nothing (held : Option Bitfield) (everything : Bool) (count : Option Nat) :
    Learns ⟨held, everything, count⟩ .haveNone ⟨some (.new (count.getD 0)), false, count⟩
  | other (pieces : RemotePieces) {event : Event} (hother : ¬ event.IsOfPieces) :
    Learns pieces event pieces

variable {before after : RemotePieces} {event : Event}

theorem addPiece_of_unknown (held : Option Bitfield) (index : Nat) :
    addPiece ⟨held, false, none⟩ index =
      ⟨some ((if (held.getD (.new 0)).size ≤ index then (held.getD (.new 0)).resize (index + 1)
        else held.getD (.new 0)).set index), false, none⟩ := by
  simp only [addPiece, Bool.false_eq_true, if_false, Option.isNone_none, Bool.true_and,
    decide_eq_true_eq, Option.getD_none]

theorem learns_addPiece (pieces : RemotePieces) (index : UInt32) :
    Learns pieces (.havePiece index) (pieces.addPiece index.toNat) := by
  obtain ⟨held, everything, count⟩ := pieces
  cases everything with
  | true => exact .pieceOfAll held count index
  | false =>
    cases count with
    | some count => exact .pieceOfKnown held count index
    | none =>
      rw [addPiece_of_unknown]
      split
      · next hbehind => exact .pieceBehind held index hbehind
      · next hinside => exact .pieceInside held index (Nat.lt_of_not_le hinside)

theorem learns_observe (pieces : RemotePieces) (event : Event) :
    Learns pieces event (pieces.observe event) := by
  cases event with
  | havePiece index => exact learns_addPiece pieces index
  | bitfield field =>
    obtain ⟨held, everything, _ | count⟩ := pieces
    · exact .bitfield held everything field
    · exact .bitfieldOfKnown held everything count field
  | haveAll =>
    obtain ⟨held, everything, _ | count⟩ := pieces
    · exact .all held everything
    · exact .allOfKnown held everything count
  | haveNone => exact .nothing pieces.bitfield pieces.everything pieces.pieceCount
  | _ => exact .other pieces not_false

theorem Learns.eq_observe (h : Learns before event after) : after = before.observe event := by
  cases h with
  | pieceInside held index hinside =>
    have hadds := addPiece_of_unknown held index.toNat
    rw [if_neg (Nat.not_le.mpr hinside)] at hadds
    exact hadds.symm
  | pieceBehind held index hbehind =>
    have hadds := addPiece_of_unknown held index.toNat
    rw [if_pos hbehind] at hadds
    exact hadds.symm
  | other pieces hother =>
    cases event with
    | havePiece | bitfield | haveAll | haveNone => exact absurd trivial hother
    | _ => rfl
  | _ => rfl

end RemotePieces

namespace ConnectionState

/-- From `before` to `after` an event is noted: what the peer says of itself is kept, and all
else is as it was. -/
structure Notes (before : ConnectionState) (event : Event) (after : ConnectionState) : Prop where
  standing : after.standing = before.standing
  amChoking : after.choking.amChoking = before.choking.amChoking
  amInterested : after.choking.amInterested = before.choking.amInterested
  peerChoking : after.choking.peerChoking = event.choking?.getD before.choking.peerChoking
  peerInterested :
    after.choking.peerInterested = event.interest?.getD before.choking.peerInterested
  bytesUploaded : after.bytesUploaded = before.bytesUploaded
  bytesDownloaded : after.bytesDownloaded = before.bytesDownloaded + event.blockBytes
  pieces : before.pieces.Learns event after.pieces

/-- From one record to another events are noted in turn, each of them once. -/
inductive NotesAll : ConnectionState → List Event → ConnectionState → Prop
  | nil (state : ConnectionState) : NotesAll state [] state
  | cons {before next after : ConnectionState} {event : Event} {rest : List Event}
      (hfirst : Notes before event next) (hrest : NotesAll next rest after) :
    NotesAll before (event :: rest) after

variable {before after other : ConnectionState} {event : Event} {events : List Event}

attribute [ext] Choking ConnectionState

theorem Notes.unique (h : Notes before event after) (h' : Notes before event other) :
    after = other := by
  obtain ⟨hphase, hlocal, hremote, hinfoHash, hreserved, hremoteReserved, hsent, hreceived⟩ :=
    Standing.mk.inj (h.standing.trans h'.standing.symm)
  have hchoking : after.choking = other.choking :=
    Choking.ext (h.amChoking.trans h'.amChoking.symm) (h.amInterested.trans h'.amInterested.symm)
      (h.peerChoking.trans h'.peerChoking.symm) (h.peerInterested.trans h'.peerInterested.symm)
  have hpieces : after.pieces = other.pieces := h.pieces.eq_observe.trans h'.pieces.eq_observe.symm
  exact ConnectionState.ext hphase hlocal hremote hinfoHash hreserved hremoteReserved hpieces hsent
    hreceived hchoking (h.bytesDownloaded.trans h'.bytesDownloaded.symm)
    (h.bytesUploaded.trans h'.bytesUploaded.symm)

theorem notes_observe (state : ConnectionState) (event : Event) :
    Notes state event (state.observe event) := by
  have hpieces := RemotePieces.learns_observe state.pieces event
  have hzero : state.bytesDownloaded = state.bytesDownloaded + 0 := (UInt64.add_zero _).symm
  cases event with
  | piece block => exact ⟨rfl, rfl, rfl, rfl, rfl, rfl, rfl, hpieces⟩
  | _ => exact ⟨rfl, rfl, rfl, rfl, rfl, rfl, hzero, hpieces⟩

theorem notes_iff : Notes before event after ↔ after = before.observe event := by
  constructor
  · intro h
    exact h.unique (notes_observe before event)
  · rintro rfl
    exact notes_observe before event

theorem notesAll_iff : NotesAll before events after ↔ after = before.observeAll events := by
  constructor
  · intro h
    induction h with
    | nil => rfl
    | cons hfirst _ ih =>
      rw [ih, notes_iff.mp hfirst]
      rfl
  · rintro rfl
    induction events generalizing before with
    | nil => exact .nil before
    | cons event rest ih => exact .cons (notes_observe before event) ih

end ConnectionState
end PeerLink
