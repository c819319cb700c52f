import Mathlib.Algebra.Group.Nat.Defs
import PeerLink.Proofs.Except
import PeerLink.Proofs.Wire.Reassembly
import PeerLink.Wire.Inbound
import PeerLink.Wire.Message

/-!
# What messages say

Every message but the extended ones is read as one event, the same whichever side wrote
it.  The payloads that `Message.toFrame` lays out are those that `Inbound` reads.
-/

namespace PeerLink

/-! ## Payloads that are read back -/

namespace Inbound

theorem pieceIndex_ofUInt32 (what : String) (index : UInt32) :
    pieceIndex what (Bytes.ofUInt32 index) = .ok index := by
  have hread := Bytes.takeUInt32?_ofUInt32_append index []
  rw [List.append_nil] at hread
  rw [pieceIndex, hread]
  rfl

theorem range_encode (what : String) (range : BlockRequest) :
    Inbound.range what range.encode = .ok range := by
  have hread := BlockRequest.decode?_encode_append range []
  rw [List.append_nil] at hread
  rw [Inbound.range, hread]
  rfl

theorem block_encode (block : Block) : Inbound.block block.encode = .ok block := by
  rw [Inbound.block, Block.decode?_encode]
  rfl

theorem port_ofUInt16 (number : UInt16) : port (Bytes.ofUInt16 number) = .ok number := by
  have hread := Bytes.takeUInt16?_ofUInt16_append number []
  rw [List.append_nil] at hread
  rw [port, hread]
  rfl

/-- A bitfield is read if the length of its frame is the right one. -/
theorem bitfield_of_length {length : UInt32} {bits : Bytes}
    (h : length.toNat = bits.length + 1) : bitfield length bits = .ok (.ofPayload bits) := by
  rw [bitfield, h]
  exact if_pos rfl

/-- What a payload says as one of the base commands, with what is read of it. -/
inductive Says (length : UInt32) (payload : Bytes) : Event → Prop
  | havePiece {index : UInt32} (h : pieceIndex "have" payload = .ok index) :
      Says length payload (.havePiece index)
  | bitfield {field : Bitfield} (h : Inbound.bitfield length payload = .ok field) :
      Says length payload (.bitfield field)
  | request {wanted : BlockRequest} (h : range "request" payload = .ok wanted) :
      Says length payload (.request wanted)
  | piece {data : Block} (h : block payload = .ok data) : Says length payload (.piece data)
  | cancel {unwanted : BlockRequest} (h : range "request" payload = .ok unwanted) :
      Says length payload (.cancel unwanted)
  | port {number : UInt16} (h : Inbound.port payload = .ok number) :
      Says length payload (.port number)

theorem says_of_read? {id : UInt8} {length : UInt32} {payload : Bytes} {event : Event}
    (h : read? id length payload = some (.ok event)) : Says length payload event := by
  obtain ⟨reader, hreader, hread⟩ := Option.map_eq_some_iff.mp h
  obtain ⟨command, -, hcommand⟩ := Option.bind_eq_some_iff.mp hreader
  cases command with
  | havePiece | bitfield | request | piece | cancel | port =>
    obtain rfl := Option.some.inj hcommand
    obtain ⟨a, ha, rfl⟩ := map_eq_ok_iff.mp hread
    constructor
    exact ha
  | _ => cases hcommand

end Inbound

/-! ## Frames of messages -/

theorem Frame.isValid_ofCommand {payload : Bytes} (h : payload.length + 1 < 2 ^ 32) (id : UInt8) :
    (Frame.ofCommand id payload).IsValid := by
  change (lengthFor payload).toNat = payload.length + 1
  rw [lengthFor, UInt32.toNat_ofNat']
  exact Nat.mod_eq_of_lt h

theorem Frame.length_encode_ofCommand (id : UInt8) (payload : Bytes) :
    (Frame.ofCommand id payload).encode.length = payload.length + 5 := by
  simp [ofCommand, encode, Nat.add_comm]

namespace Message

/-- The event that a message of the base protocol is for the peer. -/
def base? : Message → Option Event
  | .keepAlive => some .keepAlive
  | .choke => some .choke
  | .unchoke => some .unchoke
  | .interested => some .interested
  | .notInterested => some .notInterested
  | .havePiece index => some (.havePiece index)
  | .bitfield bits => some (.bitfield (.ofPayload bits))
  | .request range => some (.request range)
  | .piece block => some (.piece block)
  | .cancel range => some (.cancel range)
  | .port number => some (.port number)
  | _ => none

/-- The event that a message of the fast extension is for the peer. -/
def fast? : Message → Option Event
  | .suggest index => some (.suggest index)
  | .haveAll => some .haveAll
  | .haveNone => some .haveNone
  | .reject range => some (.reject range)
  | .allowedFast index => some (.allowedFast index)
  | _ => none

/-- The event that a message is for the peer.  What an extended message is depends on the
modules of the peer. -/
def event? (message : Message) : Option Event := message.base?.or message.fast?

theorem map_event?_eq {messages : List Message}
    (h : ∀ message ∈ messages, message.event?.isSome = true) :
    messages.map event? = (messages.filterMap event?).map some := by
  induction messages with
  | nil => rfl
  | cons message rest ih =>
    obtain ⟨hmessage, hrest⟩ := List.forall_mem_cons.mp h
    obtain ⟨event, hevent⟩ := Option.isSome_iff_exists.mp hmessage
    rw [List.map_cons, List.filterMap_cons_some hevent, List.map_cons, ih hrest, hevent]

/-- The message is one event for the peer, and its frame is not longer than the limit. -/
def IsPlain (limit : Nat) (message : Message) : Prop :=
  message.event?.isSome ∧ message.toFrame.Fits limit

instance (limit : Nat) (message : Message) : Decidable (message.IsPlain limit) :=
  inferInstanceAs (Decidable (_ ∧ _))

/-- A message is a keep-alive or a frame with a known command. -/
theorem toFrame_cases (message : Message) :
    message = .keepAlive ∨
      ∃ command payload, message.toFrame = .ofCommand (Command.toByte command) payload := by
  cases message with
  | keepAlive => exact .inl rfl
  | _ => exact .inr ⟨_, _, rfl⟩

theorem encode_ne_nil (message : Message) : message.encode ≠ [] := by
  rcases message.toFrame_cases with rfl | ⟨command, payload, hframe⟩
  · decide
  · rw [encode, hframe]
    exact List.append_ne_nil_of_right_ne_nil _ (List.cons_ne_nil _ _)

/-- A message is valid unless it is too long for the field of its length. -/
theorem isValid_of_length {message : Message} (h : message.encode.length < 2 ^ 32 + 4) :
    message.toFrame.IsValid := by
  rcases message.toFrame_cases with rfl | ⟨command, payload, hframe⟩
  · trivial
  · rw [encode, hframe, Frame.length_encode_ofCommand] at h
    rw [hframe]
    exact Frame.isValid_ofCommand (by omega) _

end Message
end PeerLink
