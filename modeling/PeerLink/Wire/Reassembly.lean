import PeerLink.Wire.Frame
import PeerLink.Wire.Handshake

/-!
# Reassembly

Bytes arrive in chunks that do not respect frames.  A `Reassembly` collects
them and gives out the handshake and then the frames as they become complete.
A frame that declares more than the accepted length is refused as soon as its
length can be read, and none of its bytes are taken.
-/

namespace PeerLink

/-- Bytes that arrived and were not given out yet. -/
structure Reassembly where
  /-- The bytes, oldest first. -/
  bytes : Bytes
  /-- The greatest length of a frame that is accepted. -/
  limit : Nat
  deriving DecidableEq, Repr

namespace Reassembly

/-- Nothing collected yet. -/
def empty (limit : Nat) : Reassembly := ⟨[], limit⟩

/-- Adds a chunk behind what was collected. -/
def feed (buffer : Reassembly) (chunk : Bytes) : Reassembly :=
  { buffer with bytes := buffer.bytes ++ chunk }

/-- Drops what was collected. -/
def clear (buffer : Reassembly) : Reassembly := { buffer with bytes := [] }

/-- Takes the peer's handshake off the front, once all of it is there.  Another
protocol is refused as soon as it shows. -/
def takeHandshake (buffer : Reassembly) : Except Failure (Option (Handshake × Reassembly)) :=
  if Handshake.agrees buffer.bytes then
    match Handshake.split? buffer.bytes with
    | some (h, rest) => .ok (some (h, { buffer with bytes := rest }))
    | none => .ok none
  else .error .unsupportedProtocol

/-- Takes the next frame off the front, once all of it is there. -/
def nextFrame (buffer : Reassembly) : Except Failure (Option (Frame × Reassembly)) :=
  match Bytes.takeUInt32? buffer.bytes with
  | none => .ok none
  | some (length, rest) =>
    if buffer.limit < length.toNat then .error (.frameTooLarge length.toNat)
    else match Bytes.splitAt? length.toNat rest with
      | none => .ok none
      | some (body, rest) => .ok (some (Frame.ofBody body, { buffer with bytes := rest }))

theorem split?_of_nextFrame {buffer rest : Reassembly} {frame : Frame}
    (h : buffer.nextFrame = .ok (some (frame, rest))) :
    Frame.split? buffer.bytes = some (frame, rest.bytes) := by
  unfold nextFrame at h
  split at h
  · cases h
  · next length body hw =>
    split at h
    · cases h
    · split at h
      · cases h
      · next front back hs =>
        simp only [Except.ok.injEq, Option.some.injEq, Prod.mk.injEq] at h
        obtain ⟨rfl, rfl⟩ := h
        simp [Frame.split?, hw, hs]

/-- What a buffer gives out before it has to wait or to refuse. -/
structure Drained where
  /-- The complete frames, in order. -/
  frames : List Frame
  /-- What is left. -/
  rest : Reassembly
  /-- Why the next frame is refused, if it is. -/
  fault : Option Failure
  deriving DecidableEq, Repr

/-- Takes all complete frames off the front. -/
def drain (buffer : Reassembly) : Drained :=
  match h : buffer.nextFrame with
  | .error fault => ⟨[], buffer, some fault⟩
  | .ok none => ⟨[], buffer, none⟩
  | .ok (some (frame, rest)) =>
    have := Frame.length_lt_of_split? (split?_of_nextFrame h)
    let later := drain rest
    { later with frames := frame :: later.frames }
termination_by buffer.bytes.length

end Reassembly
end PeerLink
