import PeerLink.Proofs.Guarded.Basic
import PeerLink.Proofs.Wire.Exactness
import PeerLink.Wire.Inbound

/-!
# Taking the wire apart

The handshake of a peer, its frames and the payloads of its base commands are taken apart
with guarded operations.  Whatever the bytes, no operation stops: each function of this
module has the result of the one in `PeerLink` that it corresponds to.  The positions and
lengths are bounded by the 32 bits of a frame's length; a payload is not read before it was
found to be long enough.
-/

namespace PeerLink
namespace Guarded

/-! ## Handshakes -/

/-- Whether bytes can still become a handshake: their first byte is the length of the name
of the protocol, and what follows agrees with the name. -/
def agrees (bytes : Bytes) : Option Bool := do
  if bytes.head?.any (· != 19) then return false
  let literal ← slice bytes (min 1 bytes.length) (min bytes.length 20)
  return literal.isPrefixOf Handshake.opening.tail

/-- The handshake that the bytes begin with, field by field. -/
def decodeHandshake (data : Bytes) : Option (Except Failure Handshake) := do
  if !(← agrees data) then return .error .unsupportedProtocol
  if data.length < Handshake.size then
    return .error (.malformedPayload (.tooShort "handshake" Handshake.size data.length))
  let reserved ← Bytes.toVector? 8 (← slice data 20 28)
  let infoHash ← Bytes.toVector? 20 (← slice data 28 48)
  let peerId ← Bytes.toVector? 20 (← slice data 48 68)
  return .ok ⟨reserved, infoHash, ⟨peerId⟩⟩

/-- Takes the peer's handshake off the front of a buffer, once all of it is there. -/
def takeHandshake (buffer : Reassembly) :
    Option (Except Failure (Option (Handshake × Reassembly))) := do
  if !(← agrees buffer.bytes) then return .error .unsupportedProtocol
  if buffer.bytes.length < Handshake.size then return .ok none
  let (raw, rest) ← Bytes.splitAt? Handshake.size buffer.bytes
  let decoded ← decodeHandshake raw
  return decoded.map fun handshake => some (handshake, { buffer with bytes := rest })

theorem agrees_eq (bytes : Bytes) : agrees bytes = some (Handshake.agrees bytes) := by
  cases bytes with
  | nil => rfl
  | cons byte rest =>
    have hslice : slice (byte :: rest) 1 (min (rest.length + 1) 20) = some (rest.take 19) := by
      rw [slice_eq (by omega) (by rw [List.length_cons]; omega), List.drop_one, List.tail_cons]
      congr 1
      rw [List.take_eq_take_iff]
      omega
    have hopening : Handshake.opening = 19 :: Handshake.opening.tail := rfl
    rw [agrees, Handshake.agrees, hopening]
    simp only [List.head?_cons, Option.any_some, List.length_cons, Nat.le_add_left, Nat.min_eq_left,
      hslice, List.take_succ_cons, List.isPrefixOf_cons_cons, List.tail_cons]
    by_cases hbyte : byte = 19
    · simp [hbyte]
    · simp [hbyte]

/-- A field that is there is found at its place. -/
theorem exists_field {data : Bytes} {start n : Nat} (h : start + n ≤ data.length) :
    ∃ field, Bytes.field? n (data.drop start) = some (field, data.drop (start + n)) ∧
      (slice data start (start + n)).bind (Bytes.toVector? n) = some field := by
  obtain ⟨field, hfield⟩ := Bytes.exists_field? h
  refine ⟨field, hfield, ?_⟩
  rw [slice_eq (Nat.le_add_right _ _) h, Nat.add_sub_cancel_left, Bytes.eq_of_field? hfield,
    List.take_left' field.length_toList, Option.bind_some, Bytes.toVector?,
    dif_pos field.length_toList]
  rfl

theorem exists_handshake {data : Bytes} (h : Handshake.size ≤ data.length) :
    ∃ handshake : Handshake, Handshake.split? data = some (handshake, data.drop Handshake.size) ∧
      (slice data 20 28).bind (Bytes.toVector? 8) = some handshake.reserved ∧
      (slice data 28 48).bind (Bytes.toVector? 20) = some handshake.infoHash ∧
      (slice data 48 68).bind (Bytes.toVector? 20) = some handshake.peerId.bytes := by
  have hsize : Handshake.size = 68 := rfl
  obtain ⟨reserved, hreserved, hfirst⟩ := @exists_field data 20 8 (by omega)
  obtain ⟨infoHash, hinfoHash, hsecond⟩ := @exists_field data 28 20 (by omega)
  obtain ⟨peerId, hpeerId, hthird⟩ := @exists_field data 48 20 (by omega)
  refine ⟨⟨reserved, infoHash, ⟨peerId⟩⟩, ?_, hfirst, hsecond, hthird⟩
  rw [Handshake.split?, splitAt?_eq (by omega)]
  simp [hreserved, hinfoHash, hpeerId, hsize]

theorem split?_eq_none {data : Bytes} (hagrees : Handshake.agrees data = true)
    (h : data.length < Handshake.size) : Handshake.split? data = none := by
  rw [Option.eq_none_iff_forall_ne_some]
  rintro ⟨handshake, rest⟩ hsplit
  have hlength := congrArg List.length (Handshake.eq_of_split? hagrees hsplit)
  rw [List.length_append, Handshake.length_encode] at hlength
  omega

theorem decodeHandshake_eq (data : Bytes) :
    decodeHandshake data = some (Handshake.decode data) := by
  rw [decodeHandshake, Handshake.decode, agrees_eq]
  cases hagrees : Handshake.agrees data with
  | false => rfl
  | true =>
    by_cases hshort : data.length < Handshake.size
    · rw [split?_eq_none hagrees hshort]
      simp [hshort]
    · obtain ⟨handshake, hsplit, hreserved, hinfoHash, hpeerId⟩ :=
        exists_handshake (Nat.not_lt.mp hshort)
      obtain ⟨first, hfirst, hreserved⟩ := Option.bind_eq_some_iff.mp hreserved
      obtain ⟨second, hsecond, hinfoHash⟩ := Option.bind_eq_some_iff.mp hinfoHash
      obtain ⟨third, hthird, hpeerId⟩ := Option.bind_eq_some_iff.mp hpeerId
      rw [hsplit]
      simp [hshort, hfirst, hsecond, hthird, hreserved, hinfoHash, hpeerId]

theorem takeHandshake_eq (buffer : Reassembly) :
    takeHandshake buffer = some buffer.takeHandshake := by
  rw [takeHandshake, Reassembly.takeHandshake, agrees_eq]
  cases hagrees : Handshake.agrees buffer.bytes with
  | false => rfl
  | true =>
    by_cases hshort : buffer.bytes.length < Handshake.size
    · rw [split?_eq_none hagrees hshort]
      simp [hshort]
    · have hlong := Nat.not_lt.mp hshort
      obtain ⟨handshake, hsplit, -⟩ := exists_handshake hlong
      have hfront : Handshake.decode (buffer.bytes.take Handshake.size) = .ok handshake := by
        have hparts := Handshake.eq_of_split? hagrees hsplit
        rw [hparts, List.take_left' (Handshake.length_encode handshake)]
        exact (congrArg _ (List.append_nil _).symm).trans
          (Handshake.decode_encode_append handshake [])
      rw [hsplit, splitAt?_eq hlong]
      simp [hshort, decodeHandshake_eq, hfront, Except.map]

/-! ## Frames -/

/-- The frame with this body. -/
def frameOfBody (body : Bytes) : Option Frame := do
  if body.isEmpty then return .keepAlive
  let id ← body.head?
  return .ofCommand id (← advance 1 body)

/-- Takes the next frame off the front of a buffer, once all of it is there. -/
def nextFrame (buffer : Reassembly) : Option (Except Failure (Option (Frame × Reassembly))) :=
  match Bytes.takeUInt32? buffer.bytes with
  | none => some (.ok none)
  | some (length, _) => do
    if buffer.limit < length.toNat then return .error (.frameTooLarge length.toNat)
    let total ← add 4 length.toNat
    if buffer.bytes.length < total then return .ok none
    let (body, rest) ← Bytes.splitAt? length.toNat (← advance 4 buffer.bytes)
    return .ok (some (← frameOfBody body, { buffer with bytes := rest }))

/-- Takes all complete frames off the front of a buffer. -/
def drain : (runs : Nat) → Reassembly → Option Reassembly.Drained
  | 0, _ => none
  | runs + 1, buffer => do
    match ← nextFrame buffer with
    | .error fault => return ⟨[], buffer, some fault⟩
    | .ok none => return ⟨[], buffer, none⟩
    | .ok (some (frame, rest)) =>
      let later ← drain runs rest
      return { later with frames := frame :: later.frames }

theorem frameOfBody_eq (body : Bytes) : frameOfBody body = some (.ofBody body) := by
  cases body with
  | nil => rfl
  | cons id payload =>
    have hpayload : advance 1 (id :: payload) = some payload := advance_eq (by simp)
    simp [frameOfBody, hpayload, Frame.ofBody]

theorem nextFrame_eq (buffer : Reassembly) : nextFrame buffer = some buffer.nextFrame := by
  rw [nextFrame, Reassembly.nextFrame]
  cases hword : Bytes.takeUInt32? buffer.bytes with
  | none => rfl
  | some taken =>
    obtain ⟨length, rest⟩ := taken
    have hbytes := Bytes.eq_of_takeUInt32? hword
    have hlong : buffer.bytes.length = 4 + rest.length := by
      rw [hbytes, List.length_append, Bytes.length_ofUInt32]
    have hrest : advance 4 buffer.bytes = some rest := by
      rw [advance_eq (by omega), hbytes, List.drop_left' (Bytes.length_ofUInt32 length)]
    have htotal : add 4 length.toNat = some (4 + length.toNat) := by
      have hlt := length.toNat_lt
      exact add_eq (by omega)
    by_cases hlarge : buffer.limit < length.toNat
    · simp [hlarge]
    · by_cases hshort : rest.length < length.toNat
      · have hwaits : buffer.bytes.length < 4 + length.toNat := by omega
        simp [hlarge, htotal, hwaits, Bytes.splitAt?_eq_none_iff.mpr hshort]
      · have hcomplete : ¬ buffer.bytes.length < 4 + length.toNat := by omega
        simp [hlarge, htotal, hcomplete, hrest, splitAt?_eq (Nat.not_lt.mp hshort), frameOfBody_eq]

theorem drain_eq {buffer : Reassembly} {runs : Nat} (h : buffer.bytes.length < runs) :
    drain runs buffer = some buffer.drain := by
  induction runs generalizing buffer with
  | zero => cases h
  | succ runs ih =>
    rw [drain, nextFrame_eq]
    cases hnext : buffer.nextFrame with
    | error fault =>
      rw [Reassembly.drain_of_nextFrame_error hnext]
      rfl
    | ok taken? =>
      cases taken? with
      | none =>
        rw [Reassembly.drain_of_nextFrame_none hnext]
        rfl
      | some taken =>
        obtain ⟨frame, rest⟩ := taken
        have hshorter := Reassembly.length_lt_of_nextFrame hnext
        have hlater := @ih rest (by omega)
        rw [Reassembly.drain_of_nextFrame_some hnext]
        simp [hlater]

/-! ## Base commands -/

/-- Checks that a payload is long enough, and reads what it holds. -/
def require {α : Type} (what : String) (needed : Nat) (payload : Bytes)
    (read : Bytes → Option α) : Option (Except Failure α) := do
  if payload.length < needed then
    return .error (.malformedPayload (.tooShort what needed payload.length))
  return .ok (← read payload)

/-- A check that is right about what a reader needs keeps it from stopping. -/
theorem require_eq {α : Type} {needed : Nat} {payload : Bytes} {read : Bytes → Option α}
    (h : (read payload).isSome = true ↔ needed ≤ payload.length) (what : String) :
    require what needed payload read =
      some (Inbound.orTooShort what needed payload (read payload)) := by
  rw [require]
  cases hread : read payload with
  | none =>
    have hshort : payload.length < needed := by
      rw [hread] at h
      simpa using h
    rw [if_pos hshort]
    rfl
  | some a =>
    have hlong : ¬ payload.length < needed := by
      rw [hread] at h
      simpa using h
    rw [if_neg hlong]
    rfl

theorem isSome_takeUInt32? (bytes : Bytes) :
    (Bytes.takeUInt32? bytes).isSome = true ↔ 4 ≤ bytes.length := by
  match bytes with
  | [] | [_] | [_, _] | [_, _, _] => simp [Bytes.takeUInt32?]
  | a :: b :: c :: d :: rest => simp [Bytes.takeUInt32?]

theorem isSome_takeUInt16? (bytes : Bytes) :
    (Bytes.takeUInt16? bytes).isSome = true ↔ 2 ≤ bytes.length := by
  match bytes with
  | [] | [_] => simp [Bytes.takeUInt16?]
  | a :: b :: rest => simp [Bytes.takeUInt16?]

/-- A word in front of something else needs four bytes more. -/
theorem isSome_takeUInt32?_bind {α : Type} {read : UInt32 × Bytes → Option α} {needed : Nat}
    (h : ∀ word rest, (read (word, rest)).isSome = true ↔ needed ≤ rest.length) (bytes : Bytes) :
    ((Bytes.takeUInt32? bytes).bind read).isSome = true ↔ needed + 4 ≤ bytes.length := by
  cases hword : Bytes.takeUInt32? bytes with
  | none =>
    have hshort := isSome_takeUInt32? bytes
    rw [hword] at hshort
    simp only [Option.bind_none, Option.isSome_none, Bool.false_eq_true, false_iff] at hshort ⊢
    omega
  | some taken =>
    have hlength := congrArg List.length (Bytes.eq_of_takeUInt32? hword)
    rw [List.length_append, Bytes.length_ofUInt32] at hlength
    rw [Option.bind_some, h]
    omega

theorem isSome_range (bytes : Bytes) :
    (BlockRequest.decode? bytes).isSome = true ↔ 12 ≤ bytes.length := by
  refine isSome_takeUInt32?_bind (fun index rest => ?_) bytes
  refine isSome_takeUInt32?_bind (fun begin rest => ?_) rest
  refine isSome_takeUInt32?_bind (fun length rest => ?_) rest
  exact iff_of_true rfl (Nat.zero_le _)

theorem isSome_block (bytes : Bytes) :
    (Block.decode? bytes).isSome = true ↔ 8 ≤ bytes.length := by
  refine isSome_takeUInt32?_bind (fun index rest => ?_) bytes
  refine isSome_takeUInt32?_bind (fun begin rest => ?_) rest
  exact iff_of_true rfl (Nat.zero_le _)

/-- The index of a piece that a payload begins with. -/
def pieceIndex (what : String) (payload : Bytes) : Option (Except Failure UInt32) :=
  require what 4 payload fun bytes => (Bytes.takeUInt32? bytes).map Prod.fst

/-- The range that a payload begins with. -/
def range (what : String) (payload : Bytes) : Option (Except Failure BlockRequest) :=
  require what 12 payload BlockRequest.decode?

/-- The block that a payload holds. -/
def block (payload : Bytes) : Option (Except Failure Block) :=
  require "piece" 8 payload Block.decode?

/-- The port that a payload begins with. -/
def port (payload : Bytes) : Option (Except Failure UInt16) :=
  require "port" 2 payload fun bytes => (Bytes.takeUInt16? bytes).map Prod.fst

/-- The pieces that a payload announces, if it is as long as its frame declared. -/
def bitfield (length : UInt32) (payload : Bytes) : Option (Except Failure Bitfield) := do
  let declared := length.toNat - 1
  if payload.length ≠ declared then
    return .error (.malformedPayload (.bitfieldLength declared payload.length))
  return .ok ⟨payload.toArray, ← mul payload.length 8⟩

/-- How the payload of a base command is read, given the declared length of its frame. -/
def reader? : Command → Option (UInt32 → Bytes → Option (Except Failure Event))
  | .havePiece => some fun _ payload => (pieceIndex "have" payload).map (.havePiece <$> ·)
  | .bitfield => some fun length payload => (bitfield length payload).map (.bitfield <$> ·)
  | .request => some fun _ payload => (range "request" payload).map (.request <$> ·)
  | .piece => some fun _ payload => (block payload).map (.piece <$> ·)
  | .cancel => some fun _ payload => (range "request" payload).map (.cancel <$> ·)
  | .port => some fun _ payload => (port payload).map (.port <$> ·)
  | _ => none

/-- What a frame with a base command says, if it is one. -/
def read (id : UInt8) (length : UInt32) (payload : Bytes) :
    Option (Option (Except Failure Event)) :=
  match (Command.ofByte? id).bind reader? with
  | none => some none
  | some reader => (reader length payload).map some

theorem pieceIndex_eq (what : String) (payload : Bytes) :
    pieceIndex what payload = some (Inbound.pieceIndex what payload) := by
  refine require_eq ?_ what
  rw [Option.isSome_map, isSome_takeUInt32?]

theorem range_eq (what : String) (payload : Bytes) :
    range what payload = some (Inbound.range what payload) :=
  require_eq (isSome_range payload) what

theorem block_eq (payload : Bytes) : block payload = some (Inbound.block payload) :=
  require_eq (isSome_block payload) "piece"

theorem port_eq (payload : Bytes) : port payload = some (Inbound.port payload) := by
  refine require_eq ?_ "port"
  rw [Option.isSome_map, isSome_takeUInt16?]

theorem bitfield_eq (length : UInt32) (payload : Bytes) :
    bitfield length payload = some (Inbound.bitfield length payload) := by
  rw [bitfield, Inbound.bitfield]
  by_cases hlength : payload.length = length.toNat - 1
  · have hpieces : mul payload.length 8 = some (payload.length * 8) := by
      have hlt := length.toNat_lt
      exact mul_eq (by omega)
    rw [if_neg (not_not_intro hlength), if_pos hlength, hpieces]
    rfl
  · simp [hlength]

theorem read_eq (id : UInt8) (length : UInt32) (payload : Bytes) :
    read id length payload = some (Inbound.read? id length payload) := by
  rw [read, Inbound.read?]
  cases Command.ofByte? id with
  | none => rfl
  | some command =>
    cases command <;>
      simp [reader?, Inbound.reader?, pieceIndex_eq, bitfield_eq, range_eq, block_eq, port_eq]

end Guarded
end PeerLink
