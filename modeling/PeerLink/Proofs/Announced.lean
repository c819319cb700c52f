import Mathlib.Data.Finset.Lattice.Basic
import PeerLink.Proofs.PieceSet
import PeerLink.Proofs.RemotePieces

/-!
# What the peer announced, as a set

Of the pieces of the peer, the record of a connection holds a bitfield that may be missing,
a flag, and the number of pieces once it is known.  The three stand for one thing that the
peer announced: everything, or a finite set of pieces.  `RemotePieces.Represents` lists the
shapes that the record takes for it, every lesson keeps to these shapes
(`ConnectionState.learn_represents`), and so the record answers as the set does after every
history of lessons: `ConnectionState.tracks_announced`.
-/

namespace PeerLink

/-- The pieces that are there, as a set. -/
def Bitfield.pieces (field : Bitfield) : Finset Nat := field.available.toFinset

theorem Bitfield.mem_pieces {field : Bitfield} {piece : Nat} :
    piece ∈ field.pieces ↔ field.has piece = true :=
  List.mem_toFinset.trans mem_available

/-- What a peer announced. -/
inductive Announced where
  | everything
  | only (pieces : Finset Nat)

/-- Whether the piece is among what was announced. -/
def Announced.Has (piece : Nat) : Announced → Prop
  | everything => True
  | only pieces => piece ∈ pieces

/-- What is told to a connection about the pieces of its peer: an event of the peer, or the
number of pieces of the torrent. -/
inductive Lesson where
  | event (event : Event) (sized : event.IsSized)
  | count (count : Nat)

/-- What a peer announced, and the number of pieces of the torrent once it is known. -/
structure Knowledge where
  announced : Announced
  count : Option Nat

namespace Knowledge

/-- Nothing announced, and the number of pieces unknown. -/
def initial : Knowledge := ⟨.only ∅, none⟩

/-- Those of some pieces that the torrent has, as far as that is known. -/
def admitted (count : Option Nat) (pieces : Finset Nat) : Finset Nat :=
  pieces.filter fun piece => count.all (piece < ·) = true

/-- A bitfield takes the place of what was announced, and a single piece is added to it.
Nothing is added to everything, and no piece that the torrent does not have. -/
def hear (known : Knowledge) : Event → Knowledge
  | .bitfield field => { known with announced := .only (admitted known.count field.pieces) }
  | .havePiece index =>
    match known.announced with
    | .everything => known
    | .only pieces =>
      { known with announced := .only (pieces ∪ admitted known.count {index.toNat}) }
  | .haveAll =>
    match known.count with
    | none => { known with announced := .everything }
    | some count => { known with announced := .only (Finset.range count) }
  | .haveNone => { known with announced := .only ∅ }
  | _ => known

/-- With their number, everything becomes a set of pieces, and other sets lose the pieces
that the torrent does not have. -/
def setCount (known : Knowledge) (count : Nat) : Knowledge :=
  match known.announced with
  | .everything => ⟨.only (Finset.range count), some count⟩
  | .only pieces => ⟨.only (pieces.filter (· < count)), some count⟩

def learn (known : Knowledge) : Lesson → Knowledge
  | .event event _ => known.hear event
  | .count count => known.setCount count

theorem mem_admitted {count : Option Nat} {pieces : Finset Nat} {piece : Nat} :
    piece ∈ admitted count pieces ↔ piece ∈ pieces ∧ ∀ n, count = some n → piece < n := by
  cases count with
  | none => simp [admitted]
  | some n => simp [admitted]

end Knowledge

namespace RemotePieces

/-- The shapes of the record: "everything" stands alone, and only while the number of
pieces is unknown; a bitfield has that number of pieces once it is known, and those of the
set. -/
inductive Represents : RemotePieces → Knowledge → Prop where
  | everything : Represents ⟨none, true, none⟩ ⟨.everything, none⟩
  | nothing (count : Option Nat) : Represents ⟨none, false, count⟩ ⟨.only ∅, count⟩
  | field {field : Bitfield} {count : Option Nat} {announced : Finset Nat}
      (sized : field.WellSized) (size_eq : ∀ n, count = some n → field.size = n)
      (has_iff : ∀ piece, field.has piece = true ↔ piece ∈ announced) :
      Represents ⟨some field, false, count⟩ ⟨.only announced, count⟩

variable {pieces : RemotePieces} {known : Knowledge}

namespace Represents

theorem pieceCount_eq (h : pieces.Represents known) : pieces.pieceCount = known.count := by
  cases h <;> rfl

theorem has_iff (h : pieces.Represents known) (piece : Nat) :
    pieces.has piece = true ↔ known.announced.Has piece := by
  cases h with
  | everything => exact iff_of_true rfl trivial
  | nothing count => simp [has, Announced.Has]
  | field sized size_eq has_iff => exact has_iff piece

theorem alone_of_everything (h : pieces.Represents known) :
    pieces.everything = true → pieces.pieceCount = none ∧ pieces.bitfield = none := by
  intro heverything
  cases h with
  | everything => exact ⟨rfl, rfl⟩
  | nothing => cases heverything
  | field => cases heverything

theorem size_eq_of_known (h : pieces.Represents known) :
    ∀ count, pieces.pieceCount = some count →
      ∀ field, pieces.bitfield = some field → field.size = count := by
  intro count hcount field hfield
  cases h with
  | everything => cases hfield
  | nothing => cases hfield
  | field sized size_eq has_iff =>
    obtain rfl := Option.some.inj hfield
    exact size_eq count hcount

/-! ## Single lessons -/

/-- A bitfield that is fit to the number of pieces. -/
theorem replace {field : Bitfield} (hsized : field.WellSized) (h : pieces.Represents known) :
    (pieces.replace field).Represents (known.hear (.bitfield field)) := by
  obtain ⟨announced, count⟩ := known
  have hcount : pieces.pieceCount = count := h.pieceCount_eq
  rw [RemotePieces.replace, hcount]
  cases count with
  | none =>
    refine .field hsized (fun n hn => by cases hn) ?_
    intro piece
    rw [Knowledge.mem_admitted, Bitfield.mem_pieces]
    simp
  | some n =>
    refine .field (Bitfield.wellSized_resize field n) ?_ ?_
    · intro m hm
      rw [Bitfield.size_resize]
      exact Option.some.inj hm
    · intro piece
      rw [Knowledge.mem_admitted, Bitfield.mem_pieces, Bitfield.has_resize hsized]
      simp [and_comm]

/-- A single piece is added to a bitfield that grows only while the number of pieces is
unknown. -/
theorem set_grown {field : Bitfield} (hsized : field.WellSized) {count : Option Nat}
    (hsize : ∀ n, count = some n → field.size = n) {announced : Finset Nat}
    (hhas : ∀ piece, field.has piece = true ↔ piece ∈ announced) (index : Nat) :
    Represents
      ⟨some ((if count.isNone && field.size ≤ index then field.resize (index + 1)
        else field).set index), false, count⟩
      ⟨.only (announced ∪ Knowledge.admitted count {index}), count⟩ := by
  split
  · next hgrows =>
    obtain ⟨hnone, hshort⟩ := Bool.and_eq_true_iff.mp hgrows
    obtain rfl := Option.isNone_iff_eq_none.mp hnone
    have hshort : field.size ≤ index := of_decide_eq_true hshort
    have hgrown := Bitfield.wellSized_resize field (index + 1)
    refine .field (hgrown.set index) (fun n hn => by cases hn) ?_
    intro piece
    rw [Bitfield.has_set hgrown, Bitfield.has_resize hsized, Bitfield.size_resize,
      Finset.mem_union, Knowledge.mem_admitted, ← hhas]
    -- The pieces that were there stand in front of the old end.
    have hold : field.has piece = true → piece < index + 1 := by
      intro hpiece
      rw [Bitfield.has_eq] at hpiece
      simp only [Bool.and_eq_true, decide_eq_true_eq] at hpiece
      omega
    by_cases hsame : piece = index
    · simp [hsame]
    · simpa [hsame] using hold
  · next hfits =>
    have hinside : index < field.size ↔ ∀ n, count = some n → index < n := by
      cases count with
      | none => simpa using hfits
      | some n => simp [hsize n rfl]
    refine .field (hsized.set index) (fun n hn => (Bitfield.size_set _ _).trans (hsize n hn)) ?_
    intro piece
    rw [Bitfield.has_set hsized, Finset.mem_union, Knowledge.mem_admitted, ← hhas]
    by_cases hsame : piece = index
    · subst hsame
      simp [hinside]
    · simp [hsame]

theorem addPiece (h : pieces.Represents known) (index : UInt32) :
    (pieces.addPiece index.toNat).Represents (known.hear (.havePiece index)) := by
  cases h with
  | everything => exact .everything
  | nothing count =>
    have hsize : ∀ n, count = some n → (Bitfield.new (count.getD 0)).size = n := by
      rintro n rfl
      rfl
    exact set_grown (Bitfield.wellSized_new _) hsize (by simp) index.toNat
  | field sized size_eq has_iff => exact set_grown sized size_eq has_iff index.toNat

theorem addAll (h : pieces.Represents known) :
    pieces.addAll.Represents (known.hear .haveAll) := by
  obtain ⟨announced, count⟩ := known
  have hcount : pieces.pieceCount = count := h.pieceCount_eq
  rw [RemotePieces.addAll, hcount]
  cases count with
  | none => exact .everything
  | some n =>
    refine .field (Bitfield.wellSized_full n) ?_ (by simp)
    intro m hm
    rw [Bitfield.size_full]
    exact Option.some.inj hm

theorem removeAll (h : pieces.Represents known) :
    pieces.removeAll.Represents (known.hear .haveNone) := by
  obtain ⟨announced, count⟩ := known
  have hcount : pieces.pieceCount = count := h.pieceCount_eq
  rw [RemotePieces.removeAll, hcount]
  refine .field (Bitfield.wellSized_new _) ?_ (by simp)
  rintro n rfl
  rfl

/-- What the record holds changes with every event as what was announced does. -/
theorem observe (h : pieces.Represents known) {event : Event} (hsized : event.IsSized) :
    (pieces.observe event).Represents (known.hear event) := by
  cases event with
  | havePiece index => exact h.addPiece index
  | bitfield field => exact h.replace hsized
  | haveAll => exact h.addAll
  | haveNone => exact h.removeAll
  | _ => exact h

theorem setPieceCount (h : pieces.Represents known) (count : Nat) :
    (pieces.setPieceCount count).Represents (known.setCount count) := by
  cases h with
  | everything =>
    refine .field (Bitfield.wellSized_full count) ?_ (by simp)
    intro n hn
    rw [Bitfield.size_full]
    exact Option.some.inj hn
  | nothing before => exact .nothing (some count)
  | field sized size_eq has_iff =>
    refine .field (Bitfield.wellSized_resize _ count) ?_ ?_
    · intro n hn
      rw [Bitfield.size_resize]
      exact Option.some.inj hn
    · intro piece
      rw [Bitfield.has_resize sized, Finset.mem_filter, ← has_iff, Bool.and_eq_true,
        decide_eq_true_eq, and_comm]

end Represents
end RemotePieces

/-! ## Histories -/

namespace ConnectionState

/-- The record after a lesson. -/
def learn (state : ConnectionState) : Lesson → ConnectionState
  | .event event _ => state.observe event
  | .count count => state.setPieceCount count

variable {state : ConnectionState} {known : Knowledge}

theorem learn_represents (h : state.pieces.Represents known) (lesson : Lesson) :
    (state.learn lesson).pieces.Represents (known.learn lesson) := by
  cases lesson with
  | event event sized =>
    change (state.observe event).pieces.Represents _
    rw [pieces_observe]
    exact h.observe sized
  | count count => exact h.setPieceCount count

theorem learnAll_represents (h : state.pieces.Represents known) (lessons : List Lesson) :
    (lessons.foldl learn state).pieces.Represents (lessons.foldl Knowledge.learn known) := by
  induction lessons generalizing state known with
  | nil => exact h
  | cons lesson rest ih => exact ih (learn_represents h lesson)

/-- Whatever a new connection was told about the pieces of its peer, and in whatever order,
it finds those there that the peer announced.  "Everything" is remembered as such only
while the number of pieces is unknown and there is no bitfield, and once the number is
known, a bitfield has just that size. -/
theorem tracks_announced (lessons : List Lesson) :
    let pieces := (lessons.foldl learn initial).pieces
    let known := lessons.foldl Knowledge.learn .initial
    (∀ piece, pieces.has piece = true ↔ known.announced.Has piece) ∧
      pieces.pieceCount = known.count ∧
      (pieces.everything = true → pieces.pieceCount = none ∧ pieces.bitfield = none) ∧
      ∀ count, pieces.pieceCount = some count →
        ∀ field, pieces.bitfield = some field → field.size = count := by
  intro pieces known
  have h : pieces.Represents known := learnAll_represents (.nothing none) lessons
  exact ⟨h.has_iff, h.pieceCount_eq, h.alone_of_everything, h.size_eq_of_known⟩

/-- Of everything, three pieces are left when the number is known; a piece behind them is
not added, and a larger number brings back none. -/
example :
    let pieces := ([.event .haveAll trivial, .event (.havePiece 7) trivial, .count 3,
      .event (.havePiece 7) trivial, .count 9, .event (.havePiece 7) trivial].foldl learn
        initial).pieces
    (List.range 12).filter pieces.has = [0, 1, 2, 7] := by decide

end ConnectionState
end PeerLink
