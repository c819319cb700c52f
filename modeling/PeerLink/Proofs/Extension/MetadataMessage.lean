import PeerLink.Extension.MetadataMessage
import PeerLink.Proofs.Bencode.Dict
import PeerLink.Proofs.Bencode.RoundTrip
import PeerLink.Proofs.Except

/-!
# Messages about metadata and the pieces they carry

A message is read back as it was written, whatever bytes stand behind its
dictionary.  `decode_eq_ok_iff` says which payloads are read as a message, and
`decode_encode_iff_isShaped` that what was read is read back too.  The pieces of
metadata have the sizes that their indices give, and one after another they are
the metadata.
-/

namespace PeerLink

open Bencode

namespace MetadataMessageType

theorem ofByte?_toByte (type : MetadataMessageType) : ofByte? type.toByte = some type := by
  cases type <;> rfl

theorem ofByte?_eq_some_iff {byte : UInt8} {type : MetadataMessageType} :
    ofByte? byte = some type ↔ type.toByte = byte := by
  constructor
  · intro h
    rw [ofByte?] at h
    split at h
    · next hbyte => rw [← Option.some.inj h, hbyte, toByte]
    · split at h
      · next hbyte => rw [← Option.some.inj h, hbyte, toByte]
      · split at h
        · next hbyte => rw [← Option.some.inj h, hbyte, toByte]
        · cases h
  · rintro rfl
    exact ofByte?_toByte type

end MetadataMessageType

/-! ## The dictionary of a message -/

namespace MetadataMessage

/-- The entries of a message, in order. -/
def entries (message : MetadataMessage) : Entries :=
  Entries.ofOption "msg_type" (some (.int (Int64.ofNat message.type.toByte.toNat))) ++
    Entries.ofOption "piece" (some (.int (Int64.ofNat message.piece.toNat))) ++
    Entries.ofOption "total_size" (message.totalSize.map fun n => .int (Int64.ofNat n.toNat))

theorem toDict_lists (message : MetadataMessage) : message.toDict.Lists message.entries := by
  apply Dict.Lists.insertSome
  · refine Dict.Lists.insert ?_ ?_ _
    · exact Dict.lists_empty.insert (by simp) _
    · exact Entries.not_mem_keys_of_get? (by simp)
  · exact Entries.not_mem_keys_of_get? (by simp [Entries.get?_append])

theorem entries_isInteger (message : MetadataMessage) {entry : Bytes × Value}
    (hentry : entry ∈ message.entries) :
    entry.1.length < UInt64.size ∧ ∃ n, entry.2 = .int n := by
  have hkeys : ∀ key ∈ ["msg_type", "piece", "total_size"].map Bytes.ofText,
      key.length < UInt64.size := by decide
  simp only [entries, List.mem_append, Entries.mem_ofOption] at hentry
  rcases hentry with (⟨_, hv, rfl⟩ | ⟨_, hv, rfl⟩) | ⟨_, hv, rfl⟩
  · exact ⟨hkeys _ (by simp), _, (Option.some.inj hv).symm⟩
  · exact ⟨hkeys _ (by simp), _, (Option.some.inj hv).symm⟩
  · obtain ⟨size, -, rfl⟩ := Option.map_eq_some_iff.mp hv
    exact ⟨hkeys _ (by simp), _, rfl⟩

/-! ## What a payload tells -/

/-- The entries of a dictionary tell the type, the piece and the size of a message, each as
the integer that it is written as, whatever else they hold.  The bytes behind the dictionary
are the data of a data message, and no part of any other. -/
structure IsToldBy (message : MetadataMessage) (entries : Entries) (rest : Bytes) : Prop where
  type : entries.get? "msg_type" = some (.int (Int64.ofNat message.type.toByte.toNat))
  piece : entries.get? "piece" = some (.int (Int64.ofNat message.piece.toNat))
  totalSize : entries.get? "total_size" =
    message.totalSize.map fun size => .int (Int64.ofNat size.toNat)
  data : message.data = if message.type = .data then some rest else none

theorem require_eq_ok_iff {entries : Entries} {key : String} {v : Value} :
    require entries key = .ok v ↔ entries.get? key = some v := by
  rw [require]
  split
  · next found hfound => rw [hfound, Except.ok.injEq, Option.some.injEq]
  · next hnone => simp [hnone]

theorem readType_eq_ok_iff {entries : Entries} {type : MetadataMessageType} :
    readType entries = .ok type ↔
      entries.get? "msg_type" = some (.int (Int64.ofNat type.toByte.toNat)) := by
  rw [readType]
  simp only [bind_eq_ok_iff, Failure.ofBencode_eq_ok_iff, require_eq_ok_iff, toUInt8_eq_ok_iff]
  constructor
  · rintro ⟨v, hv, byte, rfl, htype⟩
    split at htype
    · next found hfound =>
      obtain rfl := Except.ok.inj htype
      rw [hv, MetadataMessageType.ofByte?_eq_some_iff.mp hfound]
    · cases htype
  · intro h
    refine ⟨_, h, type.toByte, rfl, ?_⟩
    rw [MetadataMessageType.ofByte?_toByte]

theorem ofEntries_eq_ok_iff {entries : Entries} {rest : Bytes} {message : MetadataMessage} :
    ofEntries entries rest = .ok message ↔ message.IsToldBy entries rest := by
  rw [ofEntries]
  simp only [bind_eq_ok_iff, Failure.ofBencode_eq_ok_iff, require_eq_ok_iff, toUInt32_eq_ok_iff,
    readType_eq_ok_iff]
  constructor
  · rintro ⟨type, htype, v, hpiece, piece, rfl, hmessage⟩
    split at hmessage
    · next hnone =>
      obtain rfl := Except.ok.inj hmessage
      exact ⟨htype, hpiece, hnone, rfl⟩
    · next value hvalue =>
      obtain ⟨totalSize, hsize, hread⟩ := bind_eq_ok_iff.mp hmessage
      obtain ⟨size, hword, rfl⟩ := map_eq_ok_iff.mp hsize
      obtain rfl := toUInt32_eq_ok_iff.mp (Failure.ofBencode_eq_ok_iff.mp hword)
      obtain rfl := Except.ok.inj hread
      exact ⟨htype, hpiece, hvalue, rfl⟩
  · intro h
    obtain ⟨type, piece, totalSize, data⟩ := message
    refine ⟨type, h.type, _, h.piece, piece, rfl, ?_⟩
    rw [h.totalSize, ← h.data]
    cases totalSize with
    | none => rfl
    | some size =>
      simp only [Option.map_some, toUInt32_ofNat]
      rfl

/-- A payload is read as a message exactly if it begins with a dictionary that, together with
the bytes behind it, tells the message. -/
theorem decode_eq_ok_iff {payload : Bytes} {message : MetadataMessage} :
    decode payload = .ok message ↔
      ∃ entries text rest, payload = text ++ rest ∧ Spells AnyLength (.dict entries) text ∧
        (Value.dict entries).height ≤ maxDepth ∧ message.IsToldBy entries rest := by
  rw [decode, bind_eq_ok_iff]
  constructor
  · rintro ⟨⟨v, rest⟩, hread, hmessage⟩
    obtain ⟨text, htext, hheight, hpayload⟩ :=
      read_eq_ok_iff.mp (Failure.ofBencode_eq_ok_iff.mp hread)
    cases v with
    | dict entries =>
      exact ⟨entries, text, rest, hpayload, htext, hheight, ofEntries_eq_ok_iff.mp hmessage⟩
    | _ => cases hmessage
  · rintro ⟨entries, text, rest, hpayload, htext, hheight, htold⟩
    have hread : Value.read payload = .ok (.dict entries, rest) :=
      read_eq_ok_iff.mpr ⟨text, htext, hheight, hpayload⟩
    exact ⟨(.dict entries, rest), Failure.ofBencode_eq_ok_iff.mpr hread,
      ofEntries_eq_ok_iff.mpr htold⟩

/-! ## Reading a message back -/

/-- Only a message that carries a piece has bytes behind its dictionary. -/
def IsShaped (message : MetadataMessage) : Prop :=
  message.data.isSome = true ↔ message.type = .data

theorem isShaped_request (piece : UInt32) : (request piece).IsShaped := by
  simp [IsShaped, request]

theorem isShaped_ofPiece (piece totalSize : UInt32) (data : Bytes) :
    (ofPiece piece totalSize data).IsShaped := by
  simp [IsShaped, ofPiece]

/-- The entries of a message tell it. -/
theorem IsShaped.isToldBy {message : MetadataMessage} (h : message.IsShaped) :
    message.IsToldBy message.entries (message.data.getD []) where
  type := by simp [entries, Entries.get?_append]
  piece := by simp [entries, Entries.get?_append]
  totalSize := by simp [entries, Entries.get?_append]
  data := by
    split
    · next htype =>
      obtain ⟨content, hcontent⟩ := Option.isSome_iff_exists.mp (h.mpr htype)
      rw [hcontent]
      rfl
    · next htype => exact Option.not_isSome_iff_eq_none.mp fun hsome => htype (h.mp hsome)

/-- What is told has data exactly if it is a data message. -/
theorem IsToldBy.isShaped {message : MetadataMessage} {entries : Entries} {rest : Bytes}
    (h : message.IsToldBy entries rest) : message.IsShaped := by
  rw [IsShaped, h.data]
  split
  · next htype => simp [htype]
  · next htype => simp [htype]

theorem decode_encode {message : MetadataMessage} (h : message.IsShaped) :
    decode message.encode = .ok message := by
  have hentries : ∀ entry ∈ message.entries,
      (entry.1.length < UInt64.size ∧ entry.2.IsWritable) ∧ entry.2.height < maxDepth := by
    intro entry hentry
    obtain ⟨hkey, n, hn⟩ := message.entries_isInteger hentry
    rw [hn]
    exact ⟨⟨hkey, trivial⟩, Nat.zero_lt_succ _⟩
  obtain ⟨hwritable, hheight⟩ := isWritable_dict message.toDict_lists.nodup_keys hentries
  have hencode : message.encode =
      (Value.dict message.entries).encode ++ message.data.getD [] := by
    rw [encode, message.toDict_lists.toList_eq]
  exact decode_eq_ok_iff.mpr ⟨message.entries, _, _, hencode,
    (spells_encode hwritable).mono fun _ _ => trivial, hheight, h.isToldBy⟩

/-- A message is read back as it was written exactly if it has data just when it is a data
message.  Every message that was read is such a message and is read back too, and a payload
is read as a message exactly if it begins with a dictionary that tells the fields of the
message, each in its range, and the data of a data message is all that follows. -/
theorem decode_encode_iff_isShaped (message : MetadataMessage) :
    (decode message.encode = .ok message ↔ message.IsShaped) ∧
      ∀ payload,
        (decode payload = .ok message → message.IsShaped ∧ decode message.encode = .ok message) ∧
        (decode payload = .ok message ↔
          ∃ entries text rest, payload = text ++ rest ∧ Spells AnyLength (.dict entries) text ∧
            (Value.dict entries).height ≤ 64 ∧ message.IsToldBy entries rest) := by
  have hshaped : ∀ payload, decode payload = .ok message → message.IsShaped := by
    intro payload h
    obtain ⟨entries, text, rest, -, -, -, htold⟩ := decode_eq_ok_iff.mp h
    exact htold.isShaped
  refine ⟨⟨hshaped _, decode_encode⟩, ?_⟩
  intro payload
  refine ⟨?_, decode_eq_ok_iff⟩
  intro h
  exact ⟨hshaped payload h, decode_encode (hshaped payload h)⟩

/-- A data message of a foreign peer: its keys come in another order and with one more, and
its data looks like a dictionary. -/
theorem decode_encode_iff_isShaped_of_foreign :
    let payload := Bytes.ofText "d5:piecei7e1:xle8:msg_typei1eede"
    let message : MetadataMessage := ⟨.data, 7, none, some [100, 101]⟩
    decode payload = .ok message ∧ message.IsShaped ∧ decode message.encode = .ok message := by
  intro payload message
  have hread : decode payload = .ok message := by decide +kernel
  obtain ⟨-, hpayloads⟩ := decode_encode_iff_isShaped message
  obtain ⟨hback, -⟩ := hpayloads payload
  exact ⟨hread, hback hread⟩

end MetadataMessage

/-! ## Pieces -/

namespace Metadata

theorem length_piece (metadata : Bytes) (index : Nat) :
    (piece metadata index).length = pieceSize index metadata.length := by
  rw [piece, pieceSize, List.length_take, List.length_drop, Nat.min_comm]

theorem lt_pieceCount_iff {index size : Nat} :
    index < pieceCount size ↔ index * pieceLength < size := by
  rw [pieceCount, pieceLength]
  omega

theorem le_pieceCount_mul (size : Nat) : size ≤ pieceCount size * pieceLength := by
  rw [pieceCount, pieceLength]
  omega

theorem pieceCount_pos {size : Nat} (h : 0 < size) : 0 < pieceCount size := by
  rw [lt_pieceCount_iff, Nat.zero_mul]
  exact h

/-- The pieces of as much metadata as is fetched are few. -/
theorem pieceCount_le {size : Nat} (h : size ≤ 8388608) : pieceCount size ≤ 512 := by
  rw [pieceCount, pieceLength]
  omega

theorem flatMap_piece_range (metadata : Bytes) (count : Nat) :
    (List.range count).flatMap (piece metadata) = metadata.take (count * pieceLength) := by
  induction count with
  | zero => simp
  | succ count ih =>
    rw [List.range_succ, List.flatMap_append, ih, Nat.succ_mul, List.take_add]
    simp [piece]

/-- The pieces one after another are the metadata. -/
theorem flatMap_piece (metadata : Bytes) :
    (List.range (pieceCount metadata.length)).flatMap (piece metadata) = metadata := by
  rw [flatMap_piece_range, List.take_of_length_le (le_pieceCount_mul metadata.length)]

end Metadata
end PeerLink
