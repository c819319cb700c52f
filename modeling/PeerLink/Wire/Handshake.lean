import PeerLink.PeerId
import PeerLink.Sha1

/-!
# The opening handshake

A connection opens with 68 bytes from either side: the name of the protocol
behind its length, eight bytes of capability bits, the info hash and the peer
id.  The main statement is `Handshake.decode_encode_append`: what is written
reads back, whatever follows it.
-/

namespace PeerLink

/-- The bytes in which a peer announces its capabilities. -/
abbrev CapabilityBits := Vector UInt8 8

namespace CapabilityBits

/-- No capability at all. -/
def none : CapabilityBits := Vector.replicate 8 0

/-- All that either side announces. -/
def union (a b : CapabilityBits) : CapabilityBits := Vector.zipWith (· ||| ·) a b

/-- The bit of the extension protocol. -/
def extensionProtocol : CapabilityBits := none.set 5 0x10

/-- The bit of the fast extension. -/
def fastExtension : CapabilityBits := none.set 7 0x04

end CapabilityBits

/-- The opening of one side. -/
structure Handshake where
  reserved : CapabilityBits
  infoHash : Digest
  peerId : PeerId
  deriving DecidableEq, Repr

namespace Handshake

/-- The bytes that every handshake begins with: the length of the protocol's
name and the name. -/
def opening : Bytes := 19 :: Bytes.ofText "BitTorrent protocol"

/-- The number of bytes of a handshake. -/
def size : Nat := 68

/-- Whether the peer announces the extension protocol. -/
def supportsExtensions (h : Handshake) : Bool := h.reserved[5] &&& 0x10 != 0

/-- Whether the peer announces the fast extension. -/
def supportsFast (h : Handshake) : Bool := h.reserved[7] &&& 0x04 != 0

/-- Whether the peer announces a node of the distributed hash table. -/
def supportsDht (h : Handshake) : Bool := h.reserved[7] &&& 0x01 != 0

/-- The 68 bytes of a handshake. -/
def encode (h : Handshake) : Bytes :=
  opening ++ (h.reserved.toList ++ (h.infoHash.toList ++ h.peerId.bytes.toList))

/-- Whether bytes can still become a handshake: as far as they go, they agree
with the bytes that every handshake begins with. -/
def agrees (bytes : Bytes) : Bool := (bytes.take 20).isPrefixOf opening

/-- Refuses bytes that cannot become a handshake. -/
def checkOpening (bytes : Bytes) : Except Failure Unit :=
  if agrees bytes then .ok () else .error .unsupportedProtocol

/-- The fields of a handshake off the front, and what follows them.  The opening
is skipped. -/
def split? (bytes : Bytes) : Option (Handshake × Bytes) := do
  let (_, rest) ← Bytes.splitAt? 20 bytes
  let (reserved, rest) ← Bytes.field? 8 rest
  let (infoHash, rest) ← Bytes.field? 20 rest
  let (peerId, rest) ← Bytes.field? 20 rest
  return (⟨reserved, infoHash, ⟨peerId⟩⟩, rest)

/-- The handshake that the bytes begin with. -/
def decode (bytes : Bytes) : Except Failure Handshake :=
  if agrees bytes then
    match split? bytes with
    | some (h, _) => .ok h
    | none => .error (.malformedPayload (.tooShort "handshake" size bytes.length))
  else .error .unsupportedProtocol

theorem agrees_opening_append (rest : Bytes) : agrees (opening ++ rest) = true := by
  have h : opening.length = 20 := by decide
  have htake : (opening ++ rest).take 20 = opening := by
    rw [← h]
    exact List.take_left
  rw [agrees, htake]
  exact List.isPrefixOf_iff_prefix.mpr (List.prefix_refl _)

@[simp]
theorem split?_encode_append (h : Handshake) (rest : Bytes) :
    split? (h.encode ++ rest) = some (h, rest) := by
  have hopening : Bytes.splitAt? 20
      (opening ++ (h.reserved.toList ++ (h.infoHash.toList ++ (h.peerId.bytes.toList ++ rest)))) =
      some (opening, h.reserved.toList ++ (h.infoHash.toList ++ (h.peerId.bytes.toList ++ rest))) :=
    Bytes.splitAt?_eq_some_iff.mpr ⟨by decide, rfl⟩
  simp [split?, encode, List.append_assoc, hopening]

/-- A written handshake reads back, whatever follows it. -/
theorem decode_encode_append (h : Handshake) (rest : Bytes) :
    decode (h.encode ++ rest) = .ok h := by
  have hagrees : agrees (h.encode ++ rest) = true := by
    rw [encode, List.append_assoc]
    exact agrees_opening_append _
  simp [decode, hagrees]

end Handshake
end PeerLink
