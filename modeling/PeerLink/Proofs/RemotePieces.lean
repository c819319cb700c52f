import PeerLink.ConnectionState
import PeerLink.Proofs.Bitfield
import PeerLink.Proofs.Wire.Message

/-!
# When the number of pieces becomes known

Before the number of pieces is known, the bitfield of the peer grows with what it
announces; after that it has a fixed size.  Learning the number commutes with every event,
so the moment at which it is learned does not matter.
-/

namespace PeerLink

namespace Bitfield

theorem set_full (size piece : Nat) : (full size).set piece = full size := by
  apply eq_of_has ((wellSized_full size).set piece) (wellSized_full size) (size_set _ _)
  intro index hindex
  rw [size_set, size_full] at hindex
  rw [has_set (wellSized_full size), has_full, decide_eq_true hindex, Bool.true_or]

theorem resize_new (size later : Nat) : (new size).resize later = new later := by
  apply eq_of_has (wellSized_resize _ _) (wellSized_new later) (size_resize _ _)
  intro index _
  rw [has_resize (wellSized_new size), has_new, has_new, Bool.and_false]

/-- A piece can be added before or after the pieces behind the end are dropped. -/
theorem resize_set {field : Bitfield} (h : field.WellSized) {piece : Nat}
    (hpiece : piece < field.size) (size : Nat) :
    (field.set piece).resize size = (field.resize size).set piece := by
  have hresized := wellSized_resize field size
  apply eq_of_has (wellSized_resize _ _) (hresized.set piece)
  · rw [size_resize, size_set, size_resize]
  · intro index hindex
    rw [size_resize] at hindex
    rw [has_resize (h.set piece), has_set h, has_set hresized, has_resize h, size_resize,
      decide_eq_true hindex, Bool.true_and, Bool.true_and, Bool.and_true]
    by_cases hsame : index = piece
    · subst hsame
      simp [hpiece]
    · simp [hsame]

/-- Growing before another size is chosen makes no difference. -/
theorem resize_resize {field : Bitfield} (h : field.WellSized) {between : Nat}
    (hgrows : field.size ≤ between) (size : Nat) :
    (field.resize between).resize size = field.resize size := by
  have hbetween := wellSized_resize field between
  apply eq_of_has (wellSized_resize _ _) (wellSized_resize _ _)
  · rw [size_resize, size_resize]
  · intro index _
    rw [has_resize hbetween, has_resize h, has_resize h]
    by_cases hindex : index < between
    · simp [hindex]
    · have hnone : field.has index = false := by
        rw [has_eq, decide_eq_false (by omega), Bool.false_and]
      simp [hnone]

end Bitfield

/-- The bitfield of the event is well sized, if it has one. -/
def Event.IsSized : Event → Prop
  | .bitfield field => field.WellSized
  | _ => True

/-- Every event that is read from the peer is sized. -/
theorem Inbound.isSized_of_read? {id : UInt8} {length : UInt32} {payload : Bytes} {event : Event}
    (h : read? id length payload = some (.ok event)) : event.IsSized := by
  cases says_of_read? h with
  | bitfield hfield =>
    rw [bitfield] at hfield
    split at hfield
    · obtain rfl := Except.ok.inj hfield
      exact Bitfield.wellSized_ofPayload payload
    · cases hfield
  | _ => trivial

namespace RemotePieces

/-- The bitfield is well sized, if there is one. -/
def IsSized (pieces : RemotePieces) : Prop :=
  ∀ field, pieces.bitfield = some field → field.WellSized

theorem isSized_unknown : unknown.IsSized := by
  intro field h
  cases h

theorem isSized_of_some {field : Bitfield} (h : field.WellSized) (everything : Bool)
    (count : Option Nat) : IsSized ⟨some field, everything, count⟩ := by
  intro field' hfield
  obtain rfl := Option.some.inj hfield
  exact h

variable {pieces : RemotePieces}

/-- The bitfield that single pieces are added to. -/
theorem IsSized.getD (h : pieces.IsSized) (size : Nat) :
    (pieces.bitfield.getD (.new size)).WellSized := by
  cases hfield : pieces.bitfield with
  | none => exact Bitfield.wellSized_new size
  | some field => exact h field hfield

theorem IsSized.addPiece (h : pieces.IsSized) (index : Nat) : (pieces.addPiece index).IsSized := by
  rw [RemotePieces.addPiece]
  split
  · exact h
  · apply isSized_of_some
    apply Bitfield.WellSized.set
    split
    · exact Bitfield.wellSized_resize _ _
    · exact h.getD _

theorem IsSized.observe (h : pieces.IsSized) {event : Event} (hevent : event.IsSized) :
    (pieces.observe event).IsSized := by
  cases event with
  | havePiece index => exact h.addPiece index.toNat
  | bitfield field =>
    apply isSized_of_some
    split
    · exact Bitfield.wellSized_resize _ _
    · exact hevent
  | haveAll =>
    intro field hfield
    obtain ⟨count, -, rfl⟩ := Option.map_eq_some_iff.mp hfield
    exact Bitfield.wellSized_full count
  | haveNone => exact isSized_of_some (Bitfield.wellSized_new _) _ _
  | _ => exact h

theorem isSized_setPieceCount (pieces : RemotePieces) (count : Nat) :
    (pieces.setPieceCount count).IsSized := by
  rw [RemotePieces.setPieceCount]
  split
  · exact isSized_of_some (Bitfield.wellSized_full count) _ _
  · intro field hfield
    obtain ⟨field', -, rfl⟩ := Option.map_eq_some_iff.mp hfield
    exact Bitfield.wellSized_resize _ _

@[simp]
theorem pieceCount_observe (pieces : RemotePieces) (event : Event) :
    (pieces.observe event).pieceCount = pieces.pieceCount := by
  cases event with
  | havePiece index =>
    change (pieces.addPiece index.toNat).pieceCount = _
    rw [addPiece]
    split <;> rfl
  | _ => rfl

@[simp]
theorem pieceCount_setPieceCount (pieces : RemotePieces) (count : Nat) :
    (pieces.setPieceCount count).pieceCount = some count := by
  rw [setPieceCount]
  split <;> rfl

@[simp]
theorem everything_setPieceCount (pieces : RemotePieces) (count : Nat) :
    (pieces.setPieceCount count).everything = false := by
  rw [setPieceCount]
  split <;> rfl

theorem everything_observe {count : Nat} (hcount : pieces.pieceCount = some count)
    (heverything : pieces.everything = false) (event : Event) :
    (pieces.observe event).everything = false := by
  cases event with
  | havePiece index =>
    change (pieces.addPiece index.toNat).everything = false
    rw [addPiece]
    split <;> exact heverything
  | haveAll =>
    change pieces.pieceCount.isNone = false
    rw [hcount]
    rfl
  | bitfield | haveNone => rfl
  | _ => exact heverything

/-- A single piece can be announced before or after the number of pieces is learned. -/
theorem setPieceCount_addPiece (hunknown : pieces.pieceCount = none) (hsized : pieces.IsSized)
    (index count : Nat) :
    (pieces.addPiece index).setPieceCount count = (pieces.setPieceCount count).addPiece index := by
  by_cases heverything : pieces.everything = true
  · simp [addPiece, setPieceCount, heverything, Bitfield.set_full]
  · have hfield := hsized.getD 0
    generalize hget : pieces.bitfield.getD (.new 0) = field at hfield
    have hlate : ((if field.size ≤ index then field.resize (index + 1) else field).set
        index).resize count = (field.resize count).set index := by
      split
      · next hshort =>
        have hgrown := Bitfield.wellSized_resize field (index + 1)
        rw [Bitfield.resize_set hgrown (by rw [Bitfield.size_resize]; omega),
          Bitfield.resize_resize hfield (by omega)]
      · next hlong => exact Bitfield.resize_set hfield (Nat.not_le.mp hlong) count
    have hearly : (pieces.bitfield.map (·.resize count)).getD (.new count) =
        field.resize count := by
      rw [← hget]
      cases pieces.bitfield with
      | none => exact (Bitfield.resize_new 0 count).symm
      | some field => rfl
    simp [addPiece, setPieceCount, heverything, hunknown, hget, hlate, hearly]

/-- Learning the number of pieces commutes with every event. -/
theorem setPieceCount_observe (hunknown : pieces.pieceCount = none) (hsized : pieces.IsSized)
    (event : Event) (count : Nat) :
    (pieces.observe event).setPieceCount count = (pieces.setPieceCount count).observe event := by
  have hnew : (Bitfield.new 0).resize count = .new count := Bitfield.resize_new 0 count
  have hcount := pieceCount_setPieceCount pieces count
  cases event with
  | havePiece index => exact setPieceCount_addPiece hunknown hsized index.toNat count
  | bitfield field =>
    change (pieces.replace field).setPieceCount count = (pieces.setPieceCount count).replace field
    simp only [replace, hunknown, hcount]
    rfl
  | haveAll =>
    change pieces.addAll.setPieceCount count = (pieces.setPieceCount count).addAll
    simp only [addAll, hunknown, hcount]
    rfl
  | haveNone =>
    change pieces.removeAll.setPieceCount count = (pieces.setPieceCount count).removeAll
    simp only [removeAll, hunknown, hcount]
    simp [setPieceCount, hnew]
  | _ => rfl

end RemotePieces

namespace ConnectionState

variable {state : ConnectionState}

@[simp]
theorem pieces_observe (state : ConnectionState) (event : Event) :
    (state.observe event).pieces = state.pieces.observe event := by
  cases event <;> rfl

theorem setPieceCount_observe (hunknown : state.pieces.pieceCount = none)
    (hsized : state.pieces.IsSized) (event : Event) (count : Nat) :
    (state.observe event).setPieceCount count = (state.setPieceCount count).observe event := by
  have hpieces := RemotePieces.setPieceCount_observe hunknown hsized event count
  have hlate : (state.observe event).setPieceCount count =
      { state.observe event with pieces := (state.pieces.setPieceCount count).observe event } := by
    rw [setPieceCount, pieces_observe, hpieces]
  rw [hlate]
  cases event <;> rfl

/-- The record when the number of pieces is learned between two parts of the events. -/
def learning (state : ConnectionState) (before : List Event) (count : Nat)
    (after : List Event) : ConnectionState :=
  ((state.observeAll before).setPieceCount count).observeAll after

/-- Learning the number of pieces behind some events is the same as learning it first. -/
theorem learning_eq (hunknown : state.pieces.pieceCount = none) (hsized : state.pieces.IsSized)
    {before : List Event} (hevents : ∀ event ∈ before, event.IsSized) (count : Nat)
    (after : List Event) :
    state.learning before count after =
      (state.setPieceCount count).observeAll (before ++ after) := by
  induction before generalizing state with
  | nil => rfl
  | cons event rest ih =>
    obtain ⟨hevent, hrest⟩ := List.forall_mem_cons.mp hevents
    have hunknown' : (state.observe event).pieces.pieceCount = none := by
      rw [pieces_observe, RemotePieces.pieceCount_observe, hunknown]
    have hsized' : (state.observe event).pieces.IsSized := by
      rw [pieces_observe]
      exact hsized.observe hevent
    calc
      state.learning (event :: rest) count after
          = (state.observe event).learning rest count after := rfl
      _ = ((state.observe event).setPieceCount count).observeAll (rest ++ after) :=
        ih hunknown' hsized' hrest
      _ = ((state.setPieceCount count).observe event).observeAll (rest ++ after) := by
        rw [setPieceCount_observe hunknown hsized]

theorem pieceCount_observeAll (state : ConnectionState) (events : List Event) :
    (state.observeAll events).pieces.pieceCount = state.pieces.pieceCount := by
  induction events generalizing state with
  | nil => rfl
  | cons event rest ih =>
    calc
      ((state.observe event).observeAll rest).pieces.pieceCount
          = (state.observe event).pieces.pieceCount := ih _
      _ = state.pieces.pieceCount := by rw [pieces_observe, RemotePieces.pieceCount_observe]

/-- Once the number of pieces is known, "everything" is a full bitfield. -/
theorem everything_observeAll {count : Nat} (hcount : state.pieces.pieceCount = some count)
    (heverything : state.pieces.everything = false) (events : List Event) :
    (state.observeAll events).pieces.everything = false := by
  induction events generalizing state with
  | nil => exact heverything
  | cons event rest ih =>
    apply ih
    · rw [pieces_observe, RemotePieces.pieceCount_observe, hcount]
    · rw [pieces_observe]
      exact RemotePieces.everything_observe hcount heverything event

/-- When the number of pieces is learned makes no difference to what is known in the end. -/
theorem learning_anywhere (hfresh : state.pieces = .unknown) {events : List Event}
    (hevents : ∀ event ∈ events, event.IsSized) (count : Nat)
    {before after before' after' : List Event} (h : before ++ after = events)
    (h' : before' ++ after' = events) :
    let pieces := (state.learning before count after).pieces
    let pieces' := (state.learning before' count after').pieces
    pieces.bitfield = pieces'.bitfield ∧
      pieces.everything = false ∧ pieces'.everything = false ∧
      pieces.pieceCount = some count ∧ pieces'.pieceCount = some count ∧
      ∀ piece, pieces.has piece = pieces'.has piece := by
  have hunknown : state.pieces.pieceCount = none := by rw [hfresh]; rfl
  have hsized : state.pieces.IsSized := by
    rw [hfresh]
    exact RemotePieces.isSized_unknown
  have hlearned : ∀ first last, first ++ last = events →
      state.learning first count last = (state.setPieceCount count).observeAll events := by
    rintro first last rfl
    apply learning_eq hunknown hsized
    intro event hevent
    exact hevents event (List.mem_append_left last hevent)
  have hcount := RemotePieces.pieceCount_setPieceCount state.pieces count
  have heverything := RemotePieces.everything_setPieceCount state.pieces count
  have hknown : ((state.setPieceCount count).observeAll events).pieces.pieceCount = some count :=
    (pieceCount_observeAll _ _).trans hcount
  have hfull : ((state.setPieceCount count).observeAll events).pieces.everything = false :=
    everything_observeAll hcount heverything events
  rw [hlearned before after h, hlearned before' after' h']
  exact ⟨rfl, hfull, hfull, hknown, hknown, fun _ => rfl⟩

theorem learning_anywhere_behind_two :
    let before := [Event.havePiece 12, .bitfield (.ofPayload [0x80, 0x01])]
    let after := [Event.havePiece 3, .haveNone, .haveAll]
    let pieces := (initial.learning [] 10 (before ++ after)).pieces
    let pieces' := (initial.learning before 10 after).pieces
    pieces.bitfield = pieces'.bitfield ∧
      pieces.everything = false ∧ pieces'.everything = false ∧
      pieces.pieceCount = some 10 ∧ pieces'.pieceCount = some 10 ∧
      ∀ piece, pieces.has piece = pieces'.has piece := by
  intro before after
  have hevents : ∀ event ∈ before ++ after, event.IsSized := by
    intro event hevent
    simp only [before, after, List.cons_append, List.nil_append, List.mem_cons,
      List.not_mem_nil, or_false] at hevent
    obtain rfl | rfl | rfl | rfl | rfl := hevent
    case inr.inl => exact Bitfield.wellSized_ofPayload [0x80, 0x01]
    all_goals trivial
  exact learning_anywhere rfl hevents 10 rfl rfl

end ConnectionState
end PeerLink
