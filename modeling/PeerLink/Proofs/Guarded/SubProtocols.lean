import PeerLink.Module.AnySubProtocol
import PeerLink.Proofs.Guarded.Extension

/-!
# Sub-protocols that take messages of the peer

The metadata exchange and the peer exchange answer a message with guarded operations.  No
operation stops, whatever the message.  The offsets of pieces are bounded by the 32 bits of a
piece's index, and the length of what is sent by the size of a piece.
-/

namespace PeerLink

open Bencode

/-! ## How long a written message is -/

theorem Decimal.length_digits_le {n k : Nat} (hk : 0 < k) (h : n < 10 ^ k) :
    (digits n).length ≤ k := by
  induction k generalizing n with
  | zero => cases hk
  | succ k ih =>
    rw [digits]
    split
    · exact Nat.succ_le_succ (Nat.zero_le k)
    · next hlarge =>
      have hmore : 0 < k := by
        by_contra hnone
        obtain rfl : k = 0 := by omega
        omega
      have hfewer : n / 10 < 10 ^ k := by
        rw [Nat.pow_succ] at h
        omega
      have hlength := ih hmore hfewer
      rw [List.length_append, List.length_singleton]
      omega

/-- An integer of 64 bits has a sign and nineteen digits at most. -/
theorem Decimal.length_ofInt_le (n : Int64) : (ofInt n.toInt).length ≤ 20 := by
  have hlow := n.le_toInt
  have hhigh := n.toInt_lt
  cases hn : n.toInt with
  | ofNat m =>
    have hm : m < 10 ^ 19 := by
      rw [hn, Int.ofNat_eq_natCast] at hhigh
      omega
    exact Nat.le_succ_of_le (length_digits_le (by decide) hm)
  | negSucc m =>
    have hm : m + 1 < 10 ^ 19 := by
      rw [hn] at hlow
      omega
    exact Nat.succ_le_succ (length_digits_le (by decide) hm)

/-- Entries with short keys and integers are short. -/
theorem Bencode.length_encodeEntries_le {entries : Entries}
    (h : ∀ entry ∈ entries, entry.1.length ≤ 10 ∧ ∃ n, entry.2 = .int n) :
    (encodeEntries entries).length ≤ 35 * entries.length := by
  induction entries with
  | nil => exact Nat.zero_le _
  | cons entry rest ih =>
    obtain ⟨⟨hkey, n, hvalue⟩, hrest⟩ := List.forall_mem_cons.mp h
    obtain ⟨key, value⟩ := entry
    dsimp only at hkey hvalue
    subst hvalue
    have hdigits : (Decimal.digits key.length).length ≤ 2 :=
      Decimal.length_digits_le (by decide) (by omega)
    have hint := Decimal.length_ofInt_le n
    have hlater := ih hrest
    simp only [encodeEntries, encodeBytes, Value.encode, List.length_append, List.length_cons,
      List.length_nil]
    omega

/-- The dictionary of a message takes little more than a hundred bytes. -/
theorem MetadataMessage.length_encode_le (message : MetadataMessage) :
    message.encode.length ≤ 107 + (message.data.getD []).length := by
  have hkeys : ∀ key ∈ ["msg_type", "piece", "total_size"], (Bytes.ofText key).length ≤ 10 := by
    decide
  have hentries := @Bencode.length_encodeEntries_le message.entries fun entry hentry => by
    refine ⟨?_, (message.entries_isInteger hentry).2⟩
    simp only [entries, List.mem_append, Entries.mem_ofOption] at hentry
    rcases hentry with (⟨_, -, rfl⟩ | ⟨_, -, rfl⟩) | ⟨_, -, rfl⟩
    all_goals exact hkeys _ (by simp)
  have hcount : message.entries.length ≤ 3 := by
    cases htotal : message.totalSize <;> simp [entries, Entries.ofOption, htotal]
  rw [encode, message.toDict_lists.toList_eq, Value.encode, List.length_append, List.length_cons,
    List.length_append, List.length_singleton]
  omega

namespace Guarded

/-! ## Sending -/

/-- The frame of a command, with its length counted in 32 bits, and as many bytes as it
takes. -/
def newFrame (id : UInt8) (payload : Bytes) : Option Frame := do
  let length ← word 32 (1 + payload.length % 2 ^ 32)
  let _room ← add 4 length
  return .message id (UInt32.ofNat length) payload

/-- The extended message that carries a payload to the peer's side of a sub-protocol. -/
def frame (context : SubContext) (payload : Bytes) : Option (Except Failure Frame) :=
  match context.remoteId with
  | some id => do
    let _room ← add 1 payload.length
    return .ok (← newFrame Command.extended.toByte (id :: payload))
  | none => some (.error (.extension (.unsupportedByPeer context.name)))

/-- Sends one payload to the peer's side of a sub-protocol. -/
def send {σ : Type} (context : SubContext) (next : σ) (payload : Bytes) :
    Option (Reply σ Unit) := do
  match ← frame context payload with
  | .ok frame => return .ok next () (.ofFrames [frame])
  | .error failure => return .fail next failure .none

/-- The payload of a message about metadata. -/
def encodeMessage (message : MetadataMessage) : Option Bytes := do
  let d ← insert ∅ (Bytes.ofText "msg_type") (.int (Int64.ofNat message.type.toByte.toNat))
  let d ← insert d (Bytes.ofText "piece") (.int (Int64.ofNat message.piece.toNat))
  let d ← match message.totalSize with
    | some size => insert d (Bytes.ofText "total_size") (.int (Int64.ofNat size.toNat))
    | none => some d
  return (Value.dict d.toList).encode ++ message.data.getD []

theorem newFrame_eq {payload : Bytes} (h : payload.length + 1 < 2 ^ 32) (id : UInt8) :
    newFrame id payload = some (.ofCommand id payload) := by
  have hmod : payload.length % 2 ^ 32 = payload.length := Nat.mod_eq_of_lt (by omega)
  have hlength : word 32 (1 + payload.length) = some (1 + payload.length) := word_eq (by omega)
  have hroom : add 4 (1 + payload.length) = some (4 + (1 + payload.length)) := add_eq (by omega)
  rw [newFrame, hmod, hlength, Frame.ofCommand, Frame.lengthFor, Nat.add_comm payload.length]
  simp [hroom]

theorem frame_eq {payload : Bytes} (h : payload.length + 2 < 2 ^ 32) (context : SubContext) :
    frame context payload = some (context.frame payload) := by
  rw [frame, SubContext.frame]
  cases context.remoteId with
  | none => rfl
  | some id =>
    have hroom : add 1 payload.length = some (1 + payload.length) := add_eq (by omega)
    simp only [hroom, @newFrame_eq (id :: payload) h]
    rfl

theorem send_eq {σ : Type} {payload : Bytes} (h : payload.length + 2 < 2 ^ 32)
    (context : SubContext) (next : σ) :
    send context next payload = some (context.send next payload) := by
  rw [send, SubContext.send, frame_eq h]
  cases context.frame payload <;> rfl

theorem encodeMessage_eq (message : MetadataMessage) :
    encodeMessage message = some message.encode := by
  have htype := Dict.wellIndexed_empty.insert (Bytes.ofText "msg_type")
    (.int (Int64.ofNat message.type.toByte.toNat))
  have hpiece := htype.insert (Bytes.ofText "piece") (.int (Int64.ofNat message.piece.toNat))
  rw [encodeMessage, insert_eq Dict.wellIndexed_empty, MetadataMessage.encode,
    MetadataMessage.toDict]
  simp only [Option.bind_eq_bind, Option.bind_some, insert_eq htype]
  cases message.totalSize with
  | none => rfl
  | some size =>
    dsimp only
    rw [insert_eq hpiece]
    rfl

/-! ## Pieces of metadata -/

/-- The size of a piece: whole ones, a shorter last one, and nothing behind it. -/
def pieceSize (piece : UInt32) (size : Nat) : Option Nat := do
  let offset ← mul piece.toNat Metadata.pieceLength
  if size ≤ offset then return 0
  return min (← sub size offset) Metadata.pieceLength

/-- The answer to a request: the piece, or a refusal where there is none. -/
def answer (exchange : MetadataExchange) (piece : UInt32) : Option MetadataMessage :=
  match exchange.metadata with
  | none => some (.reject piece)
  | some metadata =>
    if piece.toNat < Metadata.pieceCount metadata.length then do
      let start ← mul piece.toNat Metadata.pieceLength
      let stop ← add start (← pieceSize piece metadata.length)
      return .ofPiece piece (UInt32.ofNat metadata.length) (← slice metadata start stop)
    else some (.reject piece)

variable {exchange : MetadataExchange}

theorem offset_eq (piece : UInt32) :
    mul piece.toNat Metadata.pieceLength = some (piece.toNat * Metadata.pieceLength) := by
  have hlt := piece.toNat_lt
  rw [Metadata.pieceLength]
  exact mul_eq (by omega)

theorem pieceSize_eq (piece : UInt32) (size : Nat) :
    pieceSize piece size = some (Metadata.pieceSize piece.toNat size) := by
  rw [pieceSize, offset_eq, Metadata.pieceSize]
  by_cases hbehind : size ≤ piece.toNat * Metadata.pieceLength
  · simp [hbehind, Nat.sub_eq_zero_of_le hbehind]
  · have hsub := sub_eq (Nat.le_of_not_le hbehind)
    simp [hbehind, hsub]

/-- A piece that is served lies within the metadata. -/
theorem exists_stop_of_piece {metadata : Bytes} {piece : UInt32}
    (h : piece.toNat < Metadata.pieceCount metadata.length) :
    ∃ stop, add (piece.toNat * Metadata.pieceLength)
        (Metadata.pieceSize piece.toNat metadata.length) = some stop ∧
      slice metadata (piece.toNat * Metadata.pieceLength) stop =
        some (Metadata.piece metadata piece.toNat) := by
  have hlt := piece.toNat_lt
  rw [Metadata.pieceCount, Metadata.pieceLength] at h
  rw [Metadata.pieceSize, Metadata.piece, Metadata.pieceLength]
  have hcut : (metadata.drop (piece.toNat * 16384)).take
      (min (metadata.length - piece.toNat * 16384) 16384) =
        (metadata.drop (piece.toNat * 16384)).take 16384 := by
    rw [List.take_eq_take_iff, List.length_drop]
    omega
  refine ⟨_, add_eq (by omega), ?_⟩
  rw [slice_eq (by omega) (by omega), Nat.add_sub_cancel_left, hcut]

theorem answer_eq (exchange : MetadataExchange) (piece : UInt32) :
    answer exchange piece = some (exchange.answer piece) := by
  rw [answer, MetadataExchange.answer]
  cases exchange.metadata with
  | none => rfl
  | some metadata =>
    by_cases hpiece : piece.toNat < Metadata.pieceCount metadata.length
    · obtain ⟨stop, hstop, hslice⟩ := exists_stop_of_piece hpiece
      simp [hpiece, offset_eq, pieceSize_eq, hstop, hslice]
    · simp [hpiece]

/-! ## The metadata exchange -/

/-- The frames of several messages about metadata, up to the first that cannot be sent. -/
def frames (context : SubContext) : List MetadataMessage → Option (Except Failure (List Frame))
  | [] => some (.ok [])
  | message :: rest =>
    andThen (do frame context (← encodeMessage message)) fun first =>
      andThen (frames context rest) fun later => some (.ok (first :: later))

/-- Requests all pieces if the peer has metadata that we neither have nor fetch. -/
def greetMetadata (exchange : MetadataExchange) (context : SubContext)
    (handshake : ExtensionHandshake) : Option (Reply MetadataExchange Unit) :=
  if exchange.metadata.isSome || exchange.download.isSome then some (.ok exchange () .none)
  else match MetadataExchange.usableSize? handshake.metadataSize with
    | none => some (.ok exchange () .none)
    | some size => do
      let requests := (List.range (Metadata.pieceCount size)).map fun index =>
        MetadataMessage.request (UInt32.ofNat index)
      match ← frames context requests with
      | .error failure => return .fail exchange failure .none
      | .ok frames =>
        return .ok { exchange with download := some (.start size) } () (.ofFrames frames)

/-- Stores a piece that arrived.  A piece that was not asked for is ignored. -/
def receivePiece (exchange : MetadataExchange) (context : SubContext) (piece : UInt32)
    (data : Bytes) : Option (Reply MetadataExchange Unit) :=
  match exchange.download with
  | none => some (.ok exchange () .none)
  | some download => do
    let expected ← pieceSize piece download.size
    if download.pieces.length ≤ piece.toNat then
      return .fail exchange (.extension (.pieceOutOfRange piece)) .none
    if data.length ≠ expected then
      return .fail exchange (.extension (.pieceSize piece data.length expected)) .none
    let download := { download with pieces := download.pieces.set piece.toNat (some data) }
    if download.isComplete then return exchange.finish context download
    return .ok { exchange with download := some download } () .none

/-- Answers a request, stores a piece, or reports a refusal. -/
def onMetadataMessage (exchange : MetadataExchange) (context : SubContext) (payload : Bytes) :
    Option (Reply MetadataExchange Unit) := do
  match ← decodeMetadataMessage payload with
  | .error failure => return .fail exchange failure .none
  | .ok message =>
    match message.type with
    | .request => send context exchange (← encodeMessage (← answer exchange message.piece))
    | .data => receivePiece exchange context message.piece (message.data.getD [])
    | .reject => return .ok exchange () (.ofEvent (.metadataRejected message.piece))

theorem frames_eq (context : SubContext) {messages : List MetadataMessage}
    (h : ∀ message ∈ messages, message.data = none) :
    frames context messages =
      some ((messages.map MetadataMessage.encode).mapM context.frame) := by
  induction messages with
  | nil => rfl
  | cons message rest ih =>
    obtain ⟨hmessage, hrest⟩ := List.forall_mem_cons.mp h
    have hlength := message.length_encode_le
    rw [hmessage] at hlength
    have hfirst : (do frame context (← encodeMessage message)) =
        some (context.frame message.encode) := by
      rw [encodeMessage_eq]
      exact frame_eq (by simp only [Option.getD_none, List.length_nil] at hlength; omega) context
    rw [List.map_cons, List.mapM_cons]
    refine andThen_eq hfirst fun first _ => ?_
    exact andThen_eq (ih hrest) fun later _ => rfl

theorem greetMetadata_eq (exchange : MetadataExchange) (context : SubContext)
    (handshake : ExtensionHandshake) :
    greetMetadata exchange context handshake = some (exchange.onHandshake context handshake) := by
  rw [greetMetadata, MetadataExchange.onHandshake]
  split
  · rfl
  · cases MetadataExchange.usableSize? handshake.metadataSize with
    | none => rfl
    | some size =>
      have hframes := @frames_eq context
        ((List.range (Metadata.pieceCount size)).map fun index =>
          MetadataMessage.request (UInt32.ofNat index)) (by
            intro message hmessage
            obtain ⟨index, -, rfl⟩ := List.mem_map.mp hmessage
            rfl)
      rw [List.map_map, Function.comp_def] at hframes
      simp only [hframes, Option.bind_eq_bind, Option.bind_some]
      cases List.mapM context.frame _ <;> rfl

theorem receivePiece_eq (exchange : MetadataExchange) (context : SubContext) (piece : UInt32)
    (data : Bytes) :
    receivePiece exchange context piece data = some (exchange.receive context piece data) := by
  rw [receivePiece, MetadataExchange.receive]
  cases exchange.download with
  | none => rfl
  | some download =>
    simp only [pieceSize_eq, Option.bind_eq_bind, Option.bind_some, Option.pure_def]
    split
    · rfl
    · split
      · rfl
      · split <;> rfl

theorem length_answer_le (exchange : MetadataExchange) (piece : UInt32) :
    ((exchange.answer piece).data.getD []).length ≤ Metadata.pieceLength := by
  rw [MetadataExchange.answer]
  split
  · exact Nat.zero_le _
  · split
    · exact List.length_take_le _ _
    · exact Nat.zero_le _

theorem onMetadataMessage_eq {payload : Bytes} (h : payload.length < 2 ^ 64)
    (exchange : MetadataExchange) (context : SubContext) :
    onMetadataMessage exchange context payload = some (exchange.onMessage context payload) := by
  rw [onMetadataMessage, MetadataExchange.onMessage, decodeMetadataMessage_eq h]
  cases MetadataMessage.decode payload with
  | error failure => rfl
  | ok message =>
    simp only [Option.bind_eq_bind, Option.bind_some, answer_eq, encodeMessage_eq, receivePiece_eq]
    cases message.type with
    | request =>
      have hlength := (exchange.answer message.piece).length_encode_le
      have hpiece := length_answer_le exchange message.piece
      rw [Metadata.pieceLength] at hpiece
      exact send_eq (by omega) context exchange
    | data => rfl
    | reject => rfl

/-! ## The peer exchange -/

/-- Reports a message that arrived, and counts the peers that it names. -/
def onPeerExchange (channel : PeerExchangeChannel) (payload : Bytes) :
    Option (Reply PeerExchangeChannel Unit) := do
  match ← decodePeerExchange payload with
  | .error failure => return .fail channel failure .none
  | .ok message =>
    let _joined ← add message.added.length message.added6.length
    let _left ← add message.dropped.length message.dropped6.length
    return .ok channel () (.ofEvent (.peerExchange message))

theorem onPeerExchange_eq {payload : Bytes} (h : payload.length < 2 ^ 64)
    (channel : PeerExchangeChannel) :
    onPeerExchange channel payload = some (channel.onMessage payload) := by
  rw [onPeerExchange, PeerExchangeChannel.onMessage, decodePeerExchange_eq h]
  cases hmessage : PeerExchange.decode payload with
  | error failure => rfl
  | ok message =>
    obtain ⟨hjoined, hleft⟩ := length_of_decode hmessage
    simp [add_eq hjoined, add_eq hleft]

/-! ## All sub-protocols -/

/-- Tells a sub-protocol that the peer announced it. -/
def greetSub (sub : AnySubProtocol Empty) (context : SubContext) (handshake : ExtensionHandshake) :
    Option (Reply (AnySubProtocol Empty) Unit) :=
  match sub with
  | .metadata exchange =>
    (greetMetadata exchange context handshake).map (·.mapNext .metadata)
  | .peerExchange channel => some (.ok (.peerExchange channel) () .none)

/-- Gives a sub-protocol the payload of an extended message. -/
def onMessage (sub : AnySubProtocol Empty) (context : SubContext) (payload : Bytes) :
    Option (Reply (AnySubProtocol Empty) Unit) :=
  match sub with
  | .metadata exchange =>
    (onMetadataMessage exchange context payload).map (·.mapNext .metadata)
  | .peerExchange channel => (onPeerExchange channel payload).map (·.mapNext .peerExchange)

theorem greetSub_eq (sub : AnySubProtocol Empty) (context : SubContext)
    (handshake : ExtensionHandshake) :
    greetSub sub context handshake = some (SubProtocol.onHandshake sub context handshake) := by
  cases sub with
  | metadata exchange => exact congrArg (Option.map _) (greetMetadata_eq exchange context handshake)
  | peerExchange channel => rfl
  | custom sub => exact sub.elim

theorem onMessage_eq {payload : Bytes} (h : payload.length < 2 ^ 64)
    (sub : AnySubProtocol Empty) (context : SubContext) :
    onMessage sub context payload = some (SubProtocol.onMessage sub context payload) := by
  cases sub with
  | metadata exchange => exact congrArg (Option.map _) (onMetadataMessage_eq h exchange context)
  | peerExchange channel => exact congrArg (Option.map _) (onPeerExchange_eq h channel)
  | custom sub => exact sub.elim

end Guarded
end PeerLink
