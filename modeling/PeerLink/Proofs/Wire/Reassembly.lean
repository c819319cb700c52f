import PeerLink.Wire.Reassembly

/-!
# Reassembly does not depend on how bytes arrive

A frame that is complete stays the next one when more bytes arrive behind it.
Draining a buffer, feeding it and draining it again therefore gives out the same
frames as feeding it first, and a buffer that holds the encodings of frames gives
out these frames.
-/

namespace PeerLink

/-! ## More bytes behind what is read -/

theorem Bytes.takeUInt32?_append {bytes rest : Bytes} {word : UInt32}
    (h : takeUInt32? bytes = some (word, rest)) (later : Bytes) :
    takeUInt32? (bytes ++ later) = some (word, rest ++ later) := by
  match bytes with
  | [] | [_] | [_, _] | [_, _, _] => cases h
  | a :: b :: c :: d :: body =>
    obtain ⟨rfl, rfl⟩ := Prod.mk.inj (Option.some.inj h)
    rfl

theorem Bytes.splitAt?_append {n : Nat} {bytes front back : Bytes}
    (h : splitAt? n bytes = some (front, back)) (later : Bytes) :
    splitAt? n (bytes ++ later) = some (front, back ++ later) := by
  obtain ⟨hlength, rfl⟩ := splitAt?_eq_some_iff.mp h
  exact splitAt?_eq_some_iff.mpr ⟨hlength, List.append_assoc ..⟩

theorem Bytes.field?_append {n : Nat} {bytes rest : Bytes} {field : Vector UInt8 n}
    (h : field? n bytes = some (field, rest)) (later : Bytes) :
    field? n (bytes ++ later) = some (field, rest ++ later) := by
  obtain ⟨⟨front, back⟩, hsplit, hfield⟩ := Option.bind_eq_some_iff.mp h
  obtain ⟨field', hvector, hrest⟩ := Option.bind_eq_some_iff.mp hfield
  obtain ⟨rfl, rfl⟩ := Prod.mk.inj (Option.some.inj hrest)
  simp [field?, splitAt?_append hsplit later, hvector]

theorem Bytes.length_le_of_field? {n : Nat} {bytes rest : Bytes} {field : Vector UInt8 n}
    (h : field? n bytes = some (field, rest)) : rest.length ≤ bytes.length := by
  obtain ⟨⟨front, back⟩, hsplit, hfield⟩ := Option.bind_eq_some_iff.mp h
  obtain ⟨field', -, hrest⟩ := Option.bind_eq_some_iff.mp hfield
  obtain ⟨rfl, rfl⟩ := Prod.mk.inj (Option.some.inj hrest)
  obtain ⟨-, rfl⟩ := splitAt?_eq_some_iff.mp hsplit
  simp

namespace Handshake

theorem agrees_of_append {bytes later : Bytes} (h : agrees (bytes ++ later) = true) :
    agrees bytes = true := by
  rw [agrees, List.isPrefixOf_iff_prefix] at h ⊢
  have hfront : bytes.take 20 <+: (bytes ++ later).take 20 := by
    rw [List.take_append]
    exact List.prefix_append _ _
  exact hfront.trans h

/-- Once the whole opening is there, more bytes do not matter. -/
theorem agrees_append {bytes : Bytes} (h : agrees bytes = true) (hlong : 20 ≤ bytes.length)
    (later : Bytes) : agrees (bytes ++ later) = true := by
  rw [agrees, List.take_append_of_le_length hlong]
  exact h

theorem exists_of_split? {bytes rest : Bytes} {handshake : Handshake}
    (h : split? bytes = some (handshake, rest)) :
    20 ≤ bytes.length ∧ rest.length < bytes.length ∧
      ∀ later, split? (bytes ++ later) = some (handshake, rest ++ later) := by
  obtain ⟨⟨front, body⟩, hfront, h⟩ := Option.bind_eq_some_iff.mp h
  obtain ⟨⟨reserved, body'⟩, hreserved, h⟩ := Option.bind_eq_some_iff.mp h
  obtain ⟨⟨infoHash, body''⟩, hinfoHash, h⟩ := Option.bind_eq_some_iff.mp h
  obtain ⟨⟨peerId, rest'⟩, hpeerId, h⟩ := Option.bind_eq_some_iff.mp h
  obtain ⟨rfl, rfl⟩ := Prod.mk.inj (Option.some.inj h)
  have hlong : bytes.length = 20 + body.length := by
    obtain ⟨hlength, rfl⟩ := Bytes.splitAt?_eq_some_iff.mp hfront
    rw [List.length_append, hlength]
  have hshort := Bytes.length_le_of_field? hreserved
  have hshort' := Bytes.length_le_of_field? hinfoHash
  have hshort'' := Bytes.length_le_of_field? hpeerId
  refine ⟨by omega, by omega, ?_⟩
  intro later
  simp [split?, Bytes.splitAt?_append hfront later, Bytes.field?_append hreserved later,
    Bytes.field?_append hinfoHash later, Bytes.field?_append hpeerId later]

end Handshake

/-- The frame is valid, and not longer than the limit. -/
def Frame.Fits (limit : Nat) (frame : Frame) : Prop :=
  frame.IsValid ∧ frame.length.toNat ≤ limit

instance (limit : Nat) (frame : Frame) : Decidable (frame.Fits limit) :=
  inferInstanceAs (Decidable (frame.IsValid ∧ frame.length.toNat ≤ limit))

namespace Reassembly

@[simp]
theorem feed_nil (buffer : Reassembly) : buffer.feed [] = buffer := by
  simp [feed]

theorem feed_append (buffer : Reassembly) (first second : Bytes) :
    buffer.feed (first ++ second) = (buffer.feed first).feed second := by
  simp [feed]

theorem nextFrame_feed {buffer rest : Reassembly} {frame : Frame}
    (h : buffer.nextFrame = .ok (some (frame, rest))) (later : Bytes) :
    (buffer.feed later).nextFrame = .ok (some (frame, rest.feed later)) := by
  rw [nextFrame] at h
  split at h
  · cases h
  · next length body hlength =>
    split at h
    · cases h
    · next hlimit =>
      split at h
      · cases h
      · next front back hsplit =>
        obtain ⟨rfl, rfl⟩ := Prod.mk.inj (Option.some.inj (Except.ok.inj h))
        simp [nextFrame, feed, Bytes.takeUInt32?_append hlength, hlimit,
          Bytes.splitAt?_append hsplit]

theorem nextFrame_feed_of_error {buffer : Reassembly} {failure : Failure}
    (h : buffer.nextFrame = .error failure) (later : Bytes) :
    (buffer.feed later).nextFrame = .error failure := by
  rw [nextFrame] at h
  split at h
  · cases h
  · next length body hlength =>
    split at h
    · next hlimit =>
      obtain rfl := Except.error.inj h
      simp [nextFrame, feed, Bytes.takeUInt32?_append hlength, hlimit]
    · split at h <;> cases h

theorem takeHandshake_feed {buffer rest : Reassembly} {handshake : Handshake}
    (h : buffer.takeHandshake = .ok (some (handshake, rest))) (later : Bytes) :
    (buffer.feed later).takeHandshake = .ok (some (handshake, rest.feed later)) := by
  rw [takeHandshake] at h
  split at h
  · next hagrees =>
    split at h
    · next hsplit =>
      obtain ⟨rfl, rfl⟩ := Prod.mk.inj (Option.some.inj (Except.ok.inj h))
      obtain ⟨hlong, -, hmore⟩ := Handshake.exists_of_split? hsplit
      simp [takeHandshake, feed, Handshake.agrees_append hagrees hlong later, hmore later]
    · cases h
  · cases h

theorem takeHandshake_feed_of_error {buffer : Reassembly} {failure : Failure}
    (h : buffer.takeHandshake = .error failure) (later : Bytes) :
    (buffer.feed later).takeHandshake = .error failure := by
  rw [takeHandshake] at h
  split at h
  · split at h <;> cases h
  · next hagrees =>
    have hmore : ¬ Handshake.agrees (buffer.feed later).bytes = true := fun hmore =>
      hagrees (Handshake.agrees_of_append hmore)
    rw [takeHandshake, if_neg hmore]
    exact h

theorem length_lt_of_nextFrame {buffer rest : Reassembly} {frame : Frame}
    (h : buffer.nextFrame = .ok (some (frame, rest))) : rest.bytes.length < buffer.bytes.length :=
  Frame.length_lt_of_split? (split?_of_nextFrame h)

theorem length_lt_of_takeHandshake {buffer rest : Reassembly} {handshake : Handshake}
    (h : buffer.takeHandshake = .ok (some (handshake, rest))) :
    rest.bytes.length < buffer.bytes.length := by
  rw [takeHandshake] at h
  split at h
  · split at h
    · next hsplit =>
      obtain ⟨rfl, rfl⟩ := Prod.mk.inj (Option.some.inj (Except.ok.inj h))
      exact (Handshake.exists_of_split? hsplit).2.1
    · cases h
  · cases h

theorem nextFrame_encode_append {limit : Nat} {frame : Frame} (h : frame.Fits limit)
    (rest : Bytes) :
    nextFrame ⟨frame.encode ++ rest, limit⟩ = .ok (some (frame, ⟨rest, limit⟩)) := by
  obtain ⟨hvalid, hlimit⟩ := h
  cases frame with
  | keepAlive => simp [nextFrame, Frame.encode, Bytes.splitAt?, Bytes.hasAtLeast, Frame.ofBody]
  | message id length payload =>
    have hlength : Frame.lengthFor payload = length := by
      apply UInt32.toNat_inj.mp
      have hlt := length.toNat_lt
      rw [Frame.lengthFor, UInt32.toNat_ofNat', ← hvalid]
      exact Nat.mod_eq_of_lt hlt
    have hsplit : Bytes.splitAt? length.toNat (id :: (payload ++ rest)) =
        some (id :: payload, rest) :=
      Bytes.splitAt?_eq_some_iff.mpr ⟨hvalid.symm, rfl⟩
    have hshort : ¬ limit < length.toNat := Nat.not_lt.mpr hlimit
    simp [nextFrame, Frame.encode, hlength, hshort, hsplit, Frame.ofBody, Frame.ofCommand]

/-! ## Draining -/

theorem drain_of_nextFrame_none {buffer : Reassembly} (h : buffer.nextFrame = .ok none) :
    buffer.drain = ⟨[], buffer, none⟩ := by
  rw [drain]
  split
  · next hnext => rw [h] at hnext; cases hnext
  · rfl
  · next hnext => rw [h] at hnext; cases hnext

theorem drain_of_nextFrame_some {buffer rest : Reassembly} {frame : Frame}
    (h : buffer.nextFrame = .ok (some (frame, rest))) :
    buffer.drain = { rest.drain with frames := frame :: rest.drain.frames } := by
  rw [drain]
  split
  · next hnext => rw [h] at hnext; cases hnext
  · next hnext => rw [h] at hnext; cases hnext
  · next hnext =>
    rw [h] at hnext
    obtain ⟨rfl, rfl⟩ := Prod.mk.inj (Option.some.inj (Except.ok.inj hnext))
    rfl

theorem drain_of_nextFrame_error {buffer : Reassembly} {fault : Failure}
    (h : buffer.nextFrame = .error fault) : buffer.drain = ⟨[], buffer, some fault⟩ := by
  rw [drain]
  split
  · next hnext =>
    rw [h] at hnext
    obtain rfl := Except.error.inj hnext
    rfl
  · next hnext => rw [h] at hnext; cases hnext
  · next hnext => rw [h] at hnext; cases hnext

/-- What is left has no complete frame in front. -/
theorem nextFrame_drain_rest {buffer : Reassembly} (h : buffer.drain.fault = none) :
    buffer.drain.rest.nextFrame = .ok none := by
  fun_induction drain buffer with
  | case1 buffer fault hnext => cases h
  | case2 buffer hnext => exact hnext
  | case3 buffer frame rest hnext hlt later ih => exact ih h

theorem drain_rest_of_frames_nil {buffer : Reassembly} (h : buffer.drain.frames = []) :
    buffer.drain.rest = buffer := by
  fun_induction drain buffer with
  | case1 buffer fault hnext => rfl
  | case2 buffer hnext => rfl
  | case3 buffer frame rest hnext hlt later ih => cases h

/-- Draining before more bytes arrive makes no difference. -/
theorem drain_feed {buffer : Reassembly} (h : buffer.drain.fault = none) (later : Bytes) :
    (buffer.feed later).drain =
      { (buffer.drain.rest.feed later).drain with
        frames := buffer.drain.frames ++ (buffer.drain.rest.feed later).drain.frames } := by
  induction buffer using drain.induct with
  | case1 buffer fault hnext =>
    rw [drain_of_nextFrame_error hnext] at h
    cases h
  | case2 buffer hnext =>
    rw [drain_of_nextFrame_none hnext]
    rfl
  | case3 buffer frame rest hnext hlt ih =>
    rw [drain_of_nextFrame_some hnext] at h ⊢
    rw [drain_of_nextFrame_some (nextFrame_feed hnext later), ih h]
    rfl

/-- A buffer with the encodings of frames gives out these frames, and nothing is left. -/
theorem drain_flatMap_encode {limit : Nat} {frames : List Frame}
    (h : ∀ frame ∈ frames, frame.Fits limit) :
    drain ⟨frames.flatMap Frame.encode, limit⟩ = ⟨frames, ⟨[], limit⟩, none⟩ := by
  induction frames with
  | nil => exact drain_of_nextFrame_none rfl
  | cons frame rest ih =>
    obtain ⟨hframe, hrest⟩ := List.forall_mem_cons.mp h
    have hnext := nextFrame_encode_append hframe (rest.flatMap Frame.encode)
    rw [List.flatMap_cons, drain_of_nextFrame_some hnext, ih hrest]

/-- Of the frames in a stream, those that are complete before the last bytes arrive are
given out early.  There are others exactly if there are last bytes. -/
theorem exists_eq_drain_append {buffer : Reassembly} {early last : Bytes} {frames : List Frame}
    (hfits : ∀ frame ∈ frames, frame.Fits buffer.limit)
    (hstream : buffer.bytes ++ early ++ last = frames.flatMap Frame.encode)
    (hfault : (buffer.feed early).drain.fault = none) :
    ∃ later, frames = (buffer.feed early).drain.frames ++ later ∧ (later = [] ↔ last = []) := by
  have hwhole : (buffer.feed early).feed last = ⟨frames.flatMap Frame.encode, buffer.limit⟩ := by
    rw [← hstream]
    rfl
  have hdrain := drain_feed hfault last
  rw [hwhole, drain_flatMap_encode hfits] at hdrain
  have hframes := congrArg Drained.frames hdrain
  have hrest := congrArg Drained.rest hdrain
  refine ⟨_, hframes, ?_⟩
  constructor
  · intro hnone
    dsimp only at hrest
    rw [drain_rest_of_frames_nil hnone] at hrest
    have hbytes := congrArg Reassembly.bytes hrest
    exact (List.append_eq_nil_iff.mp hbytes.symm).2
  · rintro rfl
    rw [feed_nil, drain_of_nextFrame_none (nextFrame_drain_rest hfault)]

end Reassembly
end PeerLink
