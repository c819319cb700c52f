import PeerLink.Bytes

/-!
# Frames

After the handshakes, each side sends frames: a length of four bytes, and that
many bytes of body.  The first byte of a body is a command and the others are
its payload; an empty body is a keep-alive.  The main statement is
`Frame.split?_encode_append`: a frame that is short enough for its length field
reads back, whatever follows it.
-/

namespace PeerLink

/-- One frame. -/
inductive Frame where
  /-- The frame without a body. -/
  | keepAlive
  /-- A command and its payload.  The length is the declared one. -/
  | message (id : UInt8) (length : UInt32) (payload : Bytes)
  deriving DecidableEq, Repr

namespace Frame

/-- The length of a body with this payload, in the 32 bits there are for it. -/
def lengthFor (payload : Bytes) : UInt32 := UInt32.ofNat (payload.length + 1)

/-- The frame of a command with the length that its payload gives. -/
def ofCommand (id : UInt8) (payload : Bytes) : Frame := message id (lengthFor payload) payload

/-- The frame with this body. -/
def ofBody : Bytes → Frame
  | [] => keepAlive
  | id :: payload => ofCommand id payload

/-- The command, unless the frame is a keep-alive. -/
def id? : Frame → Option UInt8
  | keepAlive => none
  | message id _ _ => some id

/-- The declared length. -/
def length : Frame → UInt32
  | keepAlive => 0
  | message _ length _ => length

/-- The payload, which is empty for a keep-alive. -/
def payload : Frame → Bytes
  | keepAlive => []
  | message _ _ payload => payload

/-- The number of bytes that the frame occupies by its declared length. -/
def encodedLength (frame : Frame) : Nat := 4 + frame.length.toNat

/-- The bytes of a frame.  The length that is written is that of the payload,
whatever the frame declares. -/
def encode : Frame → Bytes
  | keepAlive => Bytes.ofUInt32 0
  | message id _ payload => Bytes.ofUInt32 (lengthFor payload) ++ id :: payload

/-- The declared length is the one that the payload gives, and it is not cut to
fit its field. -/
def IsValid : Frame → Prop
  | keepAlive => True
  | message _ length payload => length.toNat = payload.length + 1

instance (frame : Frame) : Decidable frame.IsValid :=
  match frame with
  | keepAlive => .isTrue trivial
  | message _ length payload => inferInstanceAs (Decidable (length.toNat = payload.length + 1))

/-- The length that the first four bytes declare, once they are there. -/
def declaredLength? (bytes : Bytes) : Option Nat :=
  (Bytes.takeUInt32? bytes).map fun (length, _) => length.toNat

/-- A frame off the front, and what follows it.  There is none as long as the
frame is incomplete. -/
def split? (bytes : Bytes) : Option (Frame × Bytes) := do
  let (length, rest) ← Bytes.takeUInt32? bytes
  let (body, rest) ← Bytes.splitAt? length.toNat rest
  return (ofBody body, rest)

/-- A frame off the front, and the number of bytes it occupies. -/
def parse? (bytes : Bytes) : Option (Frame × Nat) :=
  (split? bytes).map fun (frame, rest) => (frame, bytes.length - rest.length)

theorem length_lt_of_split? {bytes rest : Bytes} {frame : Frame}
    (h : split? bytes = some (frame, rest)) : rest.length < bytes.length := by
  unfold split? at h
  match bytes with
  | [] | [_] | [_, _] | [_, _, _] => cases h
  | a :: b :: c :: d :: body =>
    simp only [Bytes.takeUInt32?, Option.bind_eq_bind, Option.bind_some,
      Option.bind_eq_some_iff] at h
    obtain ⟨⟨front, back⟩, hs, hr⟩ := h
    rw [Bytes.splitAt?_eq_some_iff] at hs
    simp only [Option.pure_def, Option.some.injEq, Prod.mk.injEq] at hr
    rw [← hr.2, hs.2]
    simp only [List.length_cons, List.length_append]
    omega

/-- The complete frames that the bytes begin with, and what is left. -/
def splitAll (bytes : Bytes) : List Frame × Bytes :=
  match h : split? bytes with
  | none => ([], bytes)
  | some (frame, rest) =>
    have := length_lt_of_split? h
    let (frames, left) := splitAll rest
    (frame :: frames, left)
termination_by bytes.length

/-- A frame reads back, whatever follows it. -/
theorem split?_encode_append {frame : Frame} (h : frame.IsValid) (rest : Bytes) :
    split? (frame.encode ++ rest) = some (frame, rest) := by
  cases frame with
  | keepAlive => simp [split?, encode, Bytes.splitAt?, Bytes.hasAtLeast, ofBody]
  | message id length payload =>
    have hlength : lengthFor payload = length := by
      apply UInt32.toNat_inj.mp
      have := length.toNat_lt
      simp only [IsValid] at h
      simp only [lengthFor, UInt32.toNat_ofNat']
      omega
    have hs : Bytes.splitAt? length.toNat (id :: (payload ++ rest)) = some (id :: payload, rest) :=
      Bytes.splitAt?_eq_some_iff.mpr ⟨by simpa [IsValid] using h.symm, by simp⟩
    simp [split?, encode, hlength, List.append_assoc, hs, ofBody, ofCommand]

end Frame
end PeerLink
