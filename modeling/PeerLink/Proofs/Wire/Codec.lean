import PeerLink.Proofs.Wire.Chunks

/-!
# Frames and their bytes

Parsing is the inverse of writing.  Bytes parse as a frame exactly if they begin with the
encoding of that frame, and they do not parse exactly if they are a fragment: the encoding
of some frame, cut off before its end.  So a stream of bytes parses as one list of frames
and one fragment, and it is the encodings of these frames with that fragment behind them.
-/

namespace PeerLink
namespace Frame

/-- The encoding of some valid frame, cut off before its end. -/
def IsFragment (bytes : Bytes) : Prop :=
  ∃ further : Frame, further.IsValid ∧ bytes <+: further.encode ∧ bytes ≠ further.encode

/-- The frames that the bytes parse as, one after another, each with the number of bytes
that it takes, and the bytes that are left. -/
def parseAll (bytes : Bytes) : List (Frame × Nat) × Bytes :=
  match h : parse? bytes with
  | none => ([], bytes)
  | some (frame, count) =>
    have := length_lt_of_split? (split?_eq_of_parse? h)
    let later := parseAll (bytes.drop count)
    ((frame, count) :: later.1, later.2)
termination_by bytes.length
decreasing_by exact this

theorem parseAll_of_none {bytes : Bytes} (h : parse? bytes = none) :
    parseAll bytes = ([], bytes) := by
  rw [parseAll]
  split
  · rfl
  · next hparse =>
    rw [h] at hparse
    cases hparse

theorem parseAll_of_some {bytes : Bytes} {frame : Frame} {count : Nat}
    (h : parse? bytes = some (frame, count)) :
    parseAll bytes =
      ((frame, count) :: (parseAll (bytes.drop count)).1, (parseAll (bytes.drop count)).2) := by
  rw [parseAll]
  split
  · next hparse =>
    rw [h] at hparse
    cases hparse
  · next hparse =>
    rw [h] at hparse
    obtain ⟨rfl, rfl⟩ := Prod.mk.inj (Option.some.inj hparse)
    rfl

/-! ## One frame -/

theorem length_encode {frame : Frame} (h : frame.IsValid) :
    frame.encode.length = frame.encodedLength := by
  cases frame with
  | keepAlive => rfl
  | message id length payload =>
    have hlength : length.toNat = payload.length + 1 := h
    simp only [encode, encodedLength, Frame.length, hlength, List.length_append,
      Bytes.length_ofUInt32, List.length_cons]

theorem parse?_encode_append {frame : Frame} (h : frame.IsValid) (rest : Bytes) :
    parse? (frame.encode ++ rest) = some (frame, frame.encodedLength) := by
  have hcount : (frame.encode ++ rest).length - rest.length = frame.encodedLength := by
    rw [List.length_append, length_encode h, Nat.add_sub_cancel]
  rw [parse?, split?_encode_append h rest, Option.map_some]
  dsimp only
  rw [hcount]

theorem eq_of_split? {bytes rest : Bytes} {frame : Frame}
    (h : split? bytes = some (frame, rest)) : frame.IsValid ∧ bytes = frame.encode ++ rest := by
  obtain ⟨⟨word, behind⟩, hword, h⟩ := Option.bind_eq_some_iff.mp h
  obtain ⟨⟨body, later⟩, hbody, h⟩ := Option.bind_eq_some_iff.mp h
  obtain ⟨rfl, rfl⟩ := Prod.mk.inj (Option.some.inj h)
  obtain ⟨hlength, rfl⟩ := Bytes.splitAt?_eq_some_iff.mp hbody
  obtain ⟨hencode, hvalid, -⟩ := encode_ofBody hlength
  refine ⟨hvalid, ?_⟩
  rw [hencode, List.append_assoc]
  exact Bytes.eq_of_takeUInt32? hword

theorem eq_of_parse? {bytes : Bytes} {frame : Frame} {count : Nat}
    (h : parse? bytes = some (frame, count)) :
    frame.IsValid ∧ count = frame.encodedLength ∧ bytes = frame.encode ++ bytes.drop count := by
  obtain ⟨hvalid, hbytes⟩ := eq_of_split? (split?_eq_of_parse? h)
  have hagain := parse?_encode_append hvalid (bytes.drop count)
  rw [← hbytes, h] at hagain
  exact ⟨hvalid, (Prod.mk.inj (Option.some.inj hagain)).2, hbytes⟩

theorem parse?_eq_some_iff {bytes : Bytes} {frame : Frame} {count : Nat} :
    parse? bytes = some (frame, count) ↔
      frame.IsValid ∧ count = frame.encodedLength ∧ frame.encode = bytes.take count := by
  constructor
  · intro h
    obtain ⟨hvalid, hcount, hbytes⟩ := eq_of_parse? h
    refine ⟨hvalid, hcount, ?_⟩
    rw [hbytes, hcount, ← length_encode hvalid, List.take_left]
  · rintro ⟨hvalid, rfl, hencode⟩
    have hbytes : bytes = frame.encode ++ bytes.drop frame.encodedLength := by
      rw [hencode, List.take_append_drop]
    rw [hbytes]
    exact parse?_encode_append hvalid _

/-! ## Less than a frame -/

/-- A length with less behind it than it declares is a fragment: the frame may go on with
zeros. -/
theorem isFragment_of_declared {word : UInt32} {body : Bytes} (h : body.length < word.toNat) :
    IsFragment (Bytes.ofUInt32 word ++ body) := by
  let missing : Bytes := List.replicate (word.toNat - body.length) 0
  have hmissing : missing.length = word.toNat - body.length := List.length_replicate
  have hlength : (body ++ missing).length = word.toNat := by
    rw [List.length_append, hmissing]
    omega
  obtain ⟨hencode, hvalid, -⟩ := encode_ofBody hlength
  rw [← List.append_assoc] at hencode
  refine ⟨ofBody (body ++ missing), hvalid, ?_, ?_⟩
  · rw [hencode]
    exact List.prefix_append _ missing
  · intro heq
    have hnone : missing = [] := by
      rw [hencode] at heq
      exact List.self_eq_append_right.mp heq
    rw [hnone, List.length_nil] at hmissing
    omega

/-- Less than a length is a fragment. -/
theorem isFragment_of_length_lt {bytes : Bytes} (h : bytes.length < 4) : IsFragment bytes := by
  have hword : ∃ word : UInt32, bytes <+: Bytes.ofUInt32 word := by
    match bytes, h with
    | [], _ => exact ⟨0, List.nil_prefix⟩
    | [a], _ => exact ⟨Bytes.word32 a 0 0 0, by simp [Bytes.ofUInt32_word32]⟩
    | [a, b], _ => exact ⟨Bytes.word32 a b 0 0, by simp [Bytes.ofUInt32_word32]⟩
    | [a, b, c], _ => exact ⟨Bytes.word32 a b c 0, by simp [Bytes.ofUInt32_word32]⟩
  obtain ⟨word, hprefix⟩ := hword
  let body : Bytes := List.replicate word.toNat 0
  have hbody : body.length = word.toNat := List.length_replicate
  obtain ⟨hencode, hvalid, -⟩ := encode_ofBody hbody
  refine ⟨ofBody body, hvalid, ?_, ?_⟩
  · rw [hencode]
    exact hprefix.trans (List.prefix_append _ body)
  · intro heq
    rw [heq, hencode, List.length_append, Bytes.length_ofUInt32] at h
    omega

theorem isFragment_of_parse?_eq_none {bytes : Bytes} (h : parse? bytes = none) :
    IsFragment bytes := by
  have hsplit : split? bytes = none := Option.map_eq_none_iff.mp h
  cases hword : Bytes.takeUInt32? bytes with
  | none =>
    apply isFragment_of_length_lt
    have hnone : ¬ (declaredLength? bytes).isSome = true := by
      simp [declaredLength?, hword]
    rw [isSome_declaredLength?] at hnone
    omega
  | some read =>
    obtain ⟨word, body⟩ := read
    rw [Bytes.eq_of_takeUInt32? hword]
    apply isFragment_of_declared
    cases hbody : Bytes.splitAt? word.toNat body with
    | none => exact Bytes.splitAt?_eq_none_iff.mp hbody
    | some cut => simp [split?, hword, hbody] at hsplit

/-- A fragment does not parse: a frame that it began with would be the one that it was cut
from. -/
theorem IsFragment.parse?_eq_none {bytes : Bytes} (h : IsFragment bytes) :
    parse? bytes = none := by
  obtain ⟨further, hfurther, ⟨missing, hmissing⟩, hne⟩ := h
  cases hparse : parse? bytes with
  | none => rfl
  | some parsed =>
    obtain ⟨frame, count⟩ := parsed
    obtain ⟨hvalid, -, hbytes⟩ := eq_of_parse? hparse
    have hwhole : frame.encode ++ (bytes.drop count ++ missing) = further.encode ++ [] := by
      rw [← List.append_assoc, ← hbytes, hmissing, List.append_nil]
    have hsplit := split?_encode_append hvalid (bytes.drop count ++ missing)
    rw [hwhole, split?_encode_append hfurther] at hsplit
    obtain ⟨-, hrest⟩ := Prod.mk.inj (Option.some.inj hsplit)
    obtain ⟨-, rfl⟩ := List.append_eq_nil_iff.mp hrest.symm
    rw [List.append_nil] at hmissing
    exact absurd hmissing hne

theorem parse?_eq_none_iff {bytes : Bytes} : parse? bytes = none ↔ IsFragment bytes :=
  ⟨isFragment_of_parse?_eq_none, IsFragment.parse?_eq_none⟩

/-! ## Frame by frame -/

/-- A frame with the number of bytes that its encoding has. -/
def measured (frame : Frame) : Frame × Nat := (frame, frame.encodedLength)

theorem parseAll_flatMap_encode_append {frames : List Frame} {left : Bytes}
    (h : ∀ frame ∈ frames, frame.IsValid) (hleft : IsFragment left) :
    parseAll (frames.flatMap encode ++ left) = (frames.map measured, left) := by
  induction frames with
  | nil => exact parseAll_of_none hleft.parse?_eq_none
  | cons frame rest ih =>
    obtain ⟨hframe, hrest⟩ := List.forall_mem_cons.mp h
    have hparse := parse?_encode_append hframe (rest.flatMap encode ++ left)
    have hdrop : (frame.encode ++ (rest.flatMap encode ++ left)).drop frame.encodedLength =
        rest.flatMap encode ++ left := by
      rw [← length_encode hframe, List.drop_left]
    rw [List.flatMap_cons, List.append_assoc, parseAll_of_some hparse, hdrop, ih hrest]
    rfl

/-- All bytes are the encodings of the frames that they parse as, and a fragment. -/
theorem exists_parseAll_eq (bytes : Bytes) :
    ∃ (frames : List Frame) (left : Bytes), parseAll bytes = (frames.map measured, left) ∧
      (∀ frame ∈ frames, frame.IsValid) ∧ IsFragment left ∧
      bytes = frames.flatMap encode ++ left := by
  induction bytes using parseAll.induct with
  | case1 bytes hparse =>
    exact ⟨[], bytes, parseAll_of_none hparse, List.forall_mem_nil _,
      isFragment_of_parse?_eq_none hparse, rfl⟩
  | case2 bytes frame count hparse hlt ih =>
    obtain ⟨frames, left, hall, hframes, hleft, hrest⟩ := ih
    obtain ⟨hvalid, hcount, hbytes⟩ := eq_of_parse? hparse
    refine ⟨frame :: frames, left, ?_, List.forall_mem_cons.mpr ⟨hvalid, hframes⟩, hleft, ?_⟩
    · rw [parseAll_of_some hparse, hall, hcount]
      rfl
    · rw [List.flatMap_cons, List.append_assoc, ← hrest]
      exact hbytes

/-- Parsing and writing are inverse to each other.  Frame by frame, bytes parse as some
frames, each of the length of its encoding, exactly if they are the encodings of these
frames; what is left then is what is left of the bytes, and it is a fragment.  A frame is
parsed exactly if it is valid and the bytes begin with its encoding, and none is exactly if
the bytes are a fragment themselves. -/
theorem parses_exactly_encodings (bytes : Bytes) :
    (∀ (frames : List Frame) (left : Bytes), parseAll bytes = (frames.map measured, left) ↔
      (∀ frame ∈ frames, frame.IsValid) ∧ IsFragment left ∧
        bytes = frames.flatMap encode ++ left) ∧
      (∀ (frame : Frame) (count : Nat), parse? bytes = some (frame, count) ↔
        frame.IsValid ∧ count = frame.encodedLength ∧ frame.encode = bytes.take count) ∧
      (parse? bytes = none ↔ IsFragment bytes) := by
  refine ⟨?_, fun frame count => parse?_eq_some_iff, parse?_eq_none_iff⟩
  intro frames left
  constructor
  · intro h
    obtain ⟨frames', left', hall, hframes, hleft, hbytes⟩ := exists_parseAll_eq bytes
    rw [h] at hall
    obtain ⟨hmeasured, rfl⟩ := Prod.mk.inj hall
    have hinjective : ∀ first second, measured first = measured second → first = second :=
      fun _ _ heq => (Prod.mk.inj heq).1
    obtain rfl := (List.map_inj_right hinjective).mp hmeasured
    exact ⟨hframes, hleft, hbytes⟩
  · rintro ⟨hframes, hleft, rfl⟩
    exact parseAll_flatMap_encode_append hframes hleft

end Frame
end PeerLink
