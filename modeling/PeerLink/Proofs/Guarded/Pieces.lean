import PeerLink.Proofs.Guarded.Basic
import PeerLink.Proofs.RemotePieces

/-!
# Keeping track of the peer's pieces

What an event tells is folded into the record of a connection with guarded operations.  The
bytes of a bitfield are addressed by position, and its spare bits are found by counting; what
keeps this from stopping is that every bitfield in the record has just enough bytes for its
pieces.  The count of downloaded bytes is a word of 64 bits: `observe_eq` says that folding
an event stops only if this count becomes too large.
-/

namespace PeerLink
namespace Guarded

/-! ## Bitfields -/

/-- Changes the byte at a position, if it is there. -/
def modifyAt (bytes : Array UInt8) (place : Nat) (change : UInt8 → UInt8) :
    Option (Array UInt8) :=
  if place < bytes.size then some (bytes.modify place change) else none

/-- Clears the bits of the last byte that stand for no piece. -/
def clearSpareBits (field : Bitfield) : Option Bitfield := do
  let spare ← sub (← mul field.bytes.size 8) field.size
  if 0 < spare ∧ spare < 8 then
    let last ← sub field.bytes.size 1
    return { field with
      bytes := ← modifyAt field.bytes last (· &&& (0xFF >>> UInt8.ofNat spare)) }
  else return field

/-- All pieces of `size`. -/
def full (size : Nat) : Option Bitfield :=
  clearSpareBits ⟨Array.replicate (Bitfield.byteCount size) 0xFF, size⟩

/-- Changes the number of pieces. -/
def resize (field : Bitfield) (size : Nat) : Option Bitfield :=
  clearSpareBits ⟨Bitfield.padTo (Bitfield.byteCount size) field.bytes, size⟩

/-- Adds a piece.  A piece out of range is ignored. -/
def set (field : Bitfield) (index : Nat) : Option Bitfield := do
  if index < field.size then
    return { field with
      bytes := ← modifyAt field.bytes (index / 8) (Octet.setBit · (index % 8)) }
  else return field

/-- The bits of so many pieces can be counted. -/
def IsCountable (size : Nat) : Prop := Bitfield.byteCount size * 8 < 2 ^ 64

theorem modifyAt_eq {bytes : Array UInt8} {place : Nat} (h : place < bytes.size)
    (change : UInt8 → UInt8) : modifyAt bytes place change = some (bytes.modify place change) :=
  if_pos h

/-- A shifted mask keeps the lowest bits. -/
theorem and_mask_eq_low (byte : UInt8) {kept : Nat} (hpos : 0 < kept) (hlt : kept < 8) :
    byte &&& (0xFF >>> UInt8.ofNat (8 - kept)) = Octet.low byte kept := by
  have hmask : ∀ k, k < 8 → 0 < k → ((0xFF : UInt8) >>> UInt8.ofNat (8 - k)).toNat = 2 ^ k - 1 := by
    decide
  have hlow : byte.toNat % 2 ^ kept < 2 ^ 8 :=
    Nat.lt_of_le_of_lt (Nat.mod_le _ _) byte.toNat_lt
  apply UInt8.toNat_inj.mp
  rw [UInt8.toNat_and, hmask kept hlt hpos, Nat.and_two_pow_sub_one_eq_mod, Octet.low,
    Nat.one_shiftLeft, UInt8.toNat_ofNat', Nat.mod_eq_of_lt hlow]

theorem clearSpareBits_eq {field : Bitfield}
    (hsize : field.bytes.size = Bitfield.byteCount field.size) (h : IsCountable field.size) :
    clearSpareBits field = some (Bitfield.trim field) := by
  have hbits : mul field.bytes.size 8 = some (field.bytes.size * 8) := mul_eq (hsize ▸ h)
  have hcount : field.bytes.size = (field.size + 7) / 8 := hsize
  have hspare : sub (field.bytes.size * 8) field.size =
      some (field.bytes.size * 8 - field.size) := sub_eq (by omega)
  rw [clearSpareBits, Bitfield.trim, hbits]
  simp only [Option.bind_eq_bind, Option.bind_some, hspare]
  by_cases hwhole : field.size % 8 = 0
  · have hnone : ¬ (0 < field.bytes.size * 8 - field.size ∧
        field.bytes.size * 8 - field.size < 8) := by omega
    rw [if_neg hnone, if_pos hwhole]
    rfl
  · have hsome : 0 < field.bytes.size * 8 - field.size ∧
        field.bytes.size * 8 - field.size < 8 := by omega
    have hlast : sub field.bytes.size 1 = some (field.size / 8) := by
      rw [sub_eq (by omega)]
      congr 1
      omega
    have hkept : field.bytes.size * 8 - field.size = 8 - field.size % 8 := by omega
    have hmask : (fun byte : UInt8 => byte &&& (0xFF >>> UInt8.ofNat (8 - field.size % 8))) =
        fun byte => Octet.low byte (field.size % 8) :=
      funext fun byte => and_mask_eq_low byte (by omega) (by omega)
    rw [if_pos hsome, if_neg hwhole, hlast, hkept]
    simp only [Option.bind_some, hmask]
    rw [modifyAt_eq (by omega)]
    rfl

theorem full_eq {size : Nat} (h : IsCountable size) : full size = some (.full size) :=
  clearSpareBits_eq Array.size_replicate h

theorem resize_eq (field : Bitfield) {size : Nat} (h : IsCountable size) :
    resize field size = some (field.resize size) :=
  clearSpareBits_eq (Bitfield.size_padTo _ _) h

theorem set_eq {field : Bitfield} (h : field.WellSized) (index : Nat) :
    set field index = some (field.set index) := by
  rw [set, Bitfield.set]
  split
  · next hindex =>
    have hbyte : index / 8 < field.bytes.size := by
      rw [h.size_bytes]
      exact Bitfield.lt_byteCount hindex
    rw [modifyAt_eq hbyte]
    rfl
  · rfl

/-! ## The pieces of the peer -/

/-- Notes a single piece. -/
def addPiece (pieces : RemotePieces) (index : Nat) : Option RemotePieces := do
  if pieces.everything then return pieces
  let field := pieces.bitfield.getD (.new (pieces.pieceCount.getD 0))
  let field ←
    if pieces.pieceCount.isNone && field.size ≤ index then resize field (← add index 1)
    else some field
  return { pieces with bitfield := some (← set field index) }

/-- Notes a whole bitfield in place of what was known. -/
def replace (pieces : RemotePieces) (field : Bitfield) : Option RemotePieces := do
  let field ← match pieces.pieceCount with
    | some count => resize field count
    | none => some field
  return { pieces with bitfield := some field, everything := false }

/-- Notes that the peer has everything. -/
def addAll (pieces : RemotePieces) : Option RemotePieces := do
  let field ← match pieces.pieceCount with
    | some count => (full count).map some
    | none => some none
  return { pieces with bitfield := field, everything := pieces.pieceCount.isNone }

/-- Notes what an event tells about the pieces of the peer. -/
def observePieces (pieces : RemotePieces) : Event → Option RemotePieces
  | .havePiece index => addPiece pieces index.toNat
  | .bitfield field => replace pieces field
  | .haveAll => addAll pieces
  | .haveNone => some pieces.removeAll
  | _ => some pieces

/-- Folds an event of the peer into the record. -/
def observe (state : ConnectionState) : Event → Option ConnectionState
  | .choke => some { state with choking := { state.choking with peerChoking := true } }
  | .unchoke => some { state with choking := { state.choking with peerChoking := false } }
  | .interested => some { state with choking := { state.choking with peerInterested := true } }
  | .notInterested =>
    some { state with choking := { state.choking with peerInterested := false } }
  | .piece block => do
    let count ← word 64 (state.bytesDownloaded.toNat + block.data.length)
    return { state with bytesDownloaded := UInt64.ofNat count }
  | event => do return { state with pieces := ← observePieces state.pieces event }

/-- Folds several events into the record, in order. -/
def observeAll (state : ConnectionState) : List Event → Option ConnectionState
  | [] => some state
  | event :: rest => do observeAll (← observe state event) rest

/-! ## Where no operation stops -/

variable {pieces : RemotePieces} {index : Nat}

theorem addPiece_eq (hsized : pieces.IsSized) (hindex : index < 2 ^ 32) :
    addPiece pieces index = some (pieces.addPiece index) := by
  rw [addPiece, RemotePieces.addPiece]
  by_cases heverything : pieces.everything = true
  · simp [heverything]
  · have hfield := hsized.getD (pieces.pieceCount.getD 0)
    generalize pieces.bitfield.getD (.new (pieces.pieceCount.getD 0)) = field at hfield ⊢
    have hnext : add index 1 = some (index + 1) := add_eq (by omega)
    have hcountable : IsCountable (index + 1) := by
      rw [IsCountable, Bitfield.byteCount]
      omega
    by_cases hgrows : (pieces.pieceCount.isNone && decide (field.size ≤ index)) = true
    · have hset := set_eq (Bitfield.wellSized_resize field (index + 1)) index
      simp [heverything, hgrows, hnext, resize_eq field hcountable, hset]
    · simp [heverything, hgrows, set_eq hfield]

end Guarded

/-- The number of pieces is one whose bits can be counted, if it is known. -/
def RemotePieces.IsCountable (pieces : RemotePieces) : Prop :=
  ∀ count, pieces.pieceCount = some count → Guarded.IsCountable count

namespace Guarded

variable {pieces : RemotePieces}

theorem replace_eq (h : pieces.IsCountable) (field : Bitfield) :
    replace pieces field = some (pieces.replace field) := by
  rw [replace, RemotePieces.replace]
  cases hcount : pieces.pieceCount with
  | none => rfl
  | some count => simp [resize_eq field (h count hcount)]

theorem addAll_eq (h : pieces.IsCountable) : addAll pieces = some pieces.addAll := by
  rw [addAll, RemotePieces.addAll]
  cases hcount : pieces.pieceCount with
  | none => rfl
  | some count => simp [full_eq (h count hcount)]

theorem observePieces_eq (hsized : pieces.IsSized) (h : pieces.IsCountable) (event : Event) :
    observePieces pieces event = some (pieces.observe event) := by
  cases event with
  | havePiece index => exact addPiece_eq hsized index.toNat_lt
  | bitfield field => exact replace_eq h field
  | haveAll => exact addAll_eq h
  | _ => rfl

end Guarded

/-- The bytes that an event downloads. -/
def Event.downloads : Event → Nat
  | .piece block => block.data.length
  | _ => 0

/-- The bytes that several events download. -/
def Event.downloadsAll (events : List Event) : Nat := (events.map Event.downloads).sum

namespace ConnectionState

/-- The record has room for so many more bytes: its bitfield has just enough bytes for its
pieces, the bits of all pieces can be counted, and so can the downloaded bytes. -/
structure HasRoomFor (state : ConnectionState) (count : Nat) : Prop where
  sized : state.pieces.IsSized
  countable : state.pieces.IsCountable
  room : state.bytesDownloaded.toNat + count < 2 ^ 64

variable {state : ConnectionState} {event : Event} {count : Nat}

theorem HasRoomFor.mono (h : state.HasRoomFor count) {fewer : Nat} (hfewer : fewer ≤ count) :
    state.HasRoomFor fewer :=
  ⟨h.sized, h.countable, Nat.lt_of_le_of_lt (Nat.add_le_add_left hfewer _) h.room⟩

theorem bytesDownloaded_observe (state : ConnectionState) (event : Event) :
    (state.observe event).bytesDownloaded =
      state.bytesDownloaded + UInt64.ofNat event.downloads := by
  cases event with
  | piece block => rfl
  | _ => exact (UInt64.add_zero _).symm

theorem bytesDownloaded_observe_le (state : ConnectionState) (event : Event) :
    (state.observe event).bytesDownloaded.toNat ≤
      state.bytesDownloaded.toNat + event.downloads := by
  rw [bytesDownloaded_observe, UInt64.toNat_add, UInt64.toNat_ofNat', Nat.add_mod_mod]
  exact Nat.mod_le _ _

theorem HasRoomFor.observe (h : state.HasRoomFor (event.downloads + count))
    (hevent : event.IsSized) : (state.observe event).HasRoomFor count where
  sized := by
    rw [pieces_observe]
    exact h.sized.observe hevent
  countable := by
    rw [pieces_observe]
    intro pieces hpieces
    rw [RemotePieces.pieceCount_observe] at hpieces
    exact h.countable pieces hpieces
  room := by
    have hle := bytesDownloaded_observe_le state event
    have hroom := h.room
    omega

end ConnectionState

namespace Guarded

variable {state : ConnectionState} {event : Event} {events : List Event}

/-- An event is folded into a record that has room for it. -/
theorem observe_eq (h : state.HasRoomFor event.downloads) :
    observe state event = some (state.observe event) := by
  cases event with
  | piece block =>
    have hcount := word_eq h.room
    have hsum : UInt64.ofNat (state.bytesDownloaded.toNat + block.data.length) =
        state.bytesDownloaded + UInt64.ofNat block.data.length := by
      rw [UInt64.ofNat_add, UInt64.ofNat_toNat]
    rw [observe, ConnectionState.observe]
    exact (congrArg (Option.bind · _) hcount).trans (by rw [← hsum]; rfl)
  | choke | unchoke | interested | notInterested => rfl
  | _ =>
    rw [observe, observePieces_eq h.sized h.countable]
    · rfl
    all_goals simp

theorem observeAll_eq (h : state.HasRoomFor (Event.downloadsAll events))
    (hevents : ∀ event ∈ events, event.IsSized) :
    observeAll state events = some (state.observeAll events) := by
  induction events generalizing state with
  | nil => rfl
  | cons event rest ih =>
    obtain ⟨hevent, hrest⟩ := List.forall_mem_cons.mp hevents
    rw [Event.downloadsAll, List.map_cons, List.sum_cons] at h
    rw [observeAll, observe_eq (h.mono (Nat.le_add_right _ _))]
    exact ih (h.observe hevent) hrest

end Guarded
end PeerLink
