import PeerLink.Proofs.Wire.Reassembly

/-!
# What is given out spells what was taken

Reading is exact: the handshake and the frames that a buffer gives out, written again, are
the bytes that it took them from.  So a stream of bytes determines what it is made of, and
a buffer that holds the beginning of a good stream refuses nothing.
-/

namespace PeerLink

/-! ## Words and fields -/

namespace Bytes

theorem ofUInt32_word32 (a b c d : UInt8) : ofUInt32 (word32 a b c d) = [a, b, c, d] := by
  have ha := a.toNat_lt
  have hb := b.toNat_lt
  have hc := c.toNat_lt
  have hd := d.toNat_lt
  have hword : (word32 a b c d).toNat =
      ((a.toNat * 256 + b.toNat) * 256 + c.toNat) * 256 + d.toNat := by
    rw [word32, UInt32.toNat_ofNat']
    omega
  simp only [ofUInt32, hword, List.cons.injEq, and_true, ← UInt8.toNat_inj, UInt8.toNat_ofNat']
  omega

theorem eq_of_takeUInt32? {bytes rest : Bytes} {word : UInt32}
    (h : takeUInt32? bytes = some (word, rest)) : bytes = ofUInt32 word ++ rest := by
  match bytes with
  | [] | [_] | [_, _] | [_, _, _] => cases h
  | a :: b :: c :: d :: body =>
    obtain ⟨rfl, rfl⟩ := Prod.mk.inj (Option.some.inj h)
    rw [ofUInt32_word32]
    rfl

theorem eq_of_field? {n : Nat} {bytes rest : Bytes} {field : Vector UInt8 n}
    (h : field? n bytes = some (field, rest)) : bytes = field.toList ++ rest := by
  obtain ⟨⟨front, back⟩, hsplit, hfield⟩ := Option.bind_eq_some_iff.mp h
  obtain ⟨field', hvector, hrest⟩ := Option.bind_eq_some_iff.mp hfield
  obtain ⟨rfl, rfl⟩ := Prod.mk.inj (Option.some.inj hrest)
  obtain ⟨-, rfl⟩ := splitAt?_eq_some_iff.mp hsplit
  rw [toVector?] at hvector
  split at hvector
  · obtain rfl := Option.some.inj hvector
    simp
  · cases hvector

/-- A field is there as soon as the bytes reach beyond its place. -/
theorem exists_field? {bytes : Bytes} {start n : Nat} (h : start + n ≤ bytes.length) :
    ∃ field, field? n (bytes.drop start) = some (field, bytes.drop (start + n)) := by
  have hwidth : ((bytes.drop start).take n).length = n := by
    apply List.length_take_of_le
    rw [List.length_drop]
    omega
  let field : Vector UInt8 n := ⟨((bytes.drop start).take n).toArray, hwidth⟩
  have hsplit : bytes.drop start = field.toList ++ bytes.drop (start + n) := by
    rw [← List.drop_drop]
    exact (List.take_append_drop n (bytes.drop start)).symm
  exact ⟨field, hsplit ▸ field?_toList_append field (bytes.drop (start + n))⟩

end Bytes

/-! ## Handshakes -/

namespace Handshake

theorem length_encode (handshake : Handshake) : handshake.encode.length = size := by
  have hopening : opening.length = 20 := by decide
  simp [encode, hopening, size]

theorem opening_of_agrees {bytes : Bytes} (h : agrees bytes = true) (hlong : 20 ≤ bytes.length) :
    bytes.take 20 = opening := by
  have hopening : opening.length = 20 := by decide
  have hprefix : bytes.take 20 <+: opening := List.isPrefixOf_iff_prefix.mp h
  apply hprefix.eq_of_length
  rw [List.length_take, hopening]
  omega

theorem eq_of_split? {bytes rest : Bytes} {handshake : Handshake} (hagrees : agrees bytes = true)
    (h : split? bytes = some (handshake, rest)) : bytes = handshake.encode ++ rest := by
  have hlong := (exists_of_split? h).1
  obtain ⟨⟨front, body⟩, hfront, h⟩ := Option.bind_eq_some_iff.mp h
  obtain ⟨⟨reserved, body'⟩, hreserved, h⟩ := Option.bind_eq_some_iff.mp h
  obtain ⟨⟨infoHash, body''⟩, hinfoHash, h⟩ := Option.bind_eq_some_iff.mp h
  obtain ⟨⟨peerId, rest'⟩, hpeerId, h⟩ := Option.bind_eq_some_iff.mp h
  obtain ⟨rfl, rfl⟩ := Prod.mk.inj (Option.some.inj h)
  have hopening := opening_of_agrees hagrees hlong
  obtain ⟨hlength, rfl⟩ := Bytes.splitAt?_eq_some_iff.mp hfront
  rw [← hlength, List.take_left] at hopening
  rw [hopening, Bytes.eq_of_field? hreserved, Bytes.eq_of_field? hinfoHash,
    Bytes.eq_of_field? hpeerId]
  simp [encode, List.append_assoc]

/-- A handshake can be read as soon as there are as many bytes as one has. -/
theorem exists_split? {bytes : Bytes} (h : size ≤ bytes.length) :
    ∃ handshake, split? bytes = some (handshake, bytes.drop size) := by
  have hsize : size = 68 := rfl
  have hfront : Bytes.splitAt? 20 bytes = some (bytes.take 20, bytes.drop 20) :=
    Bytes.splitAt?_eq_some_iff.mpr
      ⟨List.length_take_of_le (by omega), (List.take_append_drop 20 bytes).symm⟩
  obtain ⟨reserved, hreserved⟩ := @Bytes.exists_field? bytes 20 8 (by omega)
  obtain ⟨infoHash, hinfoHash⟩ := @Bytes.exists_field? bytes 28 20 (by omega)
  obtain ⟨peerId, hpeerId⟩ := @Bytes.exists_field? bytes 48 20 (by omega)
  exact ⟨⟨reserved, infoHash, ⟨peerId⟩⟩, by
    simp [split?, hfront, hreserved, hinfoHash, hpeerId, hsize]⟩

/-- Bytes begin with one handshake at most. -/
theorem eq_of_encode_append {first second : Handshake} {rest rest' : Bytes}
    (h : first.encode ++ rest = second.encode ++ rest') : first = second ∧ rest = rest' := by
  have hsplit := split?_encode_append first rest
  rw [h, split?_encode_append] at hsplit
  obtain ⟨rfl, rfl⟩ := Prod.mk.inj (Option.some.inj hsplit)
  exact ⟨rfl, rfl⟩

end Handshake

/-! ## Frames -/

namespace Frame

theorem encode_ofBody {length : UInt32} {body : Bytes} (h : body.length = length.toNat) :
    (ofBody body).encode = Bytes.ofUInt32 length ++ body ∧ (ofBody body).IsValid ∧
      (ofBody body).length = length := by
  cases body with
  | nil =>
    obtain rfl : length = 0 := UInt32.toNat_inj.mp h.symm
    exact ⟨rfl, trivial, rfl⟩
  | cons id payload =>
    have hlength : lengthFor payload = length := by
      apply UInt32.toNat_inj.mp
      have hlt := length.toNat_lt
      rw [List.length_cons] at h
      rw [lengthFor, UInt32.toNat_ofNat']
      omega
    refine ⟨?_, ?_, hlength⟩
    · rw [ofBody, ofCommand, encode, hlength]
    · change (lengthFor payload).toNat = payload.length + 1
      rw [hlength]
      exact h.symm

/-- Frames in front of a stream of frames are the first of them. -/
theorem exists_append_of_flatMap_encode {told all : List Frame} {rest : Bytes}
    (htold : ∀ frame ∈ told, frame.IsValid) (hall : ∀ frame ∈ all, frame.IsValid)
    (h : told.flatMap encode ++ rest = all.flatMap encode) :
    ∃ left, all = told ++ left ∧ rest = left.flatMap encode := by
  induction told generalizing all with
  | nil => exact ⟨all, rfl, h⟩
  | cons frame told ih =>
    obtain ⟨hframe, hbehind⟩ := List.forall_mem_cons.mp htold
    rw [List.flatMap_cons, List.append_assoc] at h
    cases all with
    | nil =>
      have hsplit := split?_encode_append hframe (told.flatMap encode ++ rest)
      rw [h] at hsplit
      cases hsplit
    | cons first all =>
      obtain ⟨hfirst, hlater⟩ := List.forall_mem_cons.mp hall
      have hsplit := split?_encode_append hframe (told.flatMap encode ++ rest)
      rw [h, List.flatMap_cons, split?_encode_append hfirst] at hsplit
      obtain ⟨rfl, hrest⟩ := Prod.mk.inj (Option.some.inj hsplit)
      obtain ⟨left, rfl, hleft⟩ := ih hbehind hlater hrest.symm
      exact ⟨left, rfl, hleft⟩

end Frame

/-! ## Buffers -/

namespace Reassembly

theorem takeHandshake_eq_some_iff {buffer rest : Reassembly} {handshake : Handshake} :
    buffer.takeHandshake = .ok (some (handshake, rest)) ↔
      buffer.bytes = handshake.encode ++ rest.bytes ∧ rest.limit = buffer.limit := by
  constructor
  · intro h
    rw [takeHandshake] at h
    split at h
    · next hagrees =>
      split at h
      · next hsplit =>
        obtain ⟨rfl, rfl⟩ := Prod.mk.inj (Option.some.inj (Except.ok.inj h))
        exact ⟨Handshake.eq_of_split? hagrees hsplit, rfl⟩
      · cases h
    · cases h
  · rintro ⟨hbytes, hlimit⟩
    have hagrees : Handshake.agrees buffer.bytes = true := by
      rw [hbytes, Handshake.encode, List.append_assoc]
      exact Handshake.agrees_opening_append _
    rw [takeHandshake, if_pos hagrees, hbytes, Handshake.split?_encode_append, ← hlimit]

theorem eq_of_nextFrame {buffer rest : Reassembly} {frame : Frame}
    (h : buffer.nextFrame = .ok (some (frame, rest))) :
    buffer.bytes = frame.encode ++ rest.bytes ∧ frame.Fits buffer.limit ∧
      rest.limit = buffer.limit := by
  rw [nextFrame] at h
  split at h
  · cases h
  · next length body hlength =>
    split at h
    · cases h
    · next hlimit =>
      split at h
      · cases h
      · next front back hsplit =>
        obtain ⟨rfl, rfl⟩ := Prod.mk.inj (Option.some.inj (Except.ok.inj h))
        obtain ⟨hfront, rfl⟩ := Bytes.splitAt?_eq_some_iff.mp hsplit
        obtain ⟨hencode, hvalid, hsame⟩ := Frame.encode_ofBody hfront
        refine ⟨?_, ⟨hvalid, ?_⟩, rfl⟩
        · rw [Bytes.eq_of_takeUInt32? hlength, hencode, List.append_assoc]
        · rw [hsame]
          exact Nat.not_lt.mp hlimit

/-- Draining takes the frames that it gives out, and nothing else. -/
theorem eq_drain (buffer : Reassembly) :
    buffer.bytes = buffer.drain.frames.flatMap Frame.encode ++ buffer.drain.rest.bytes ∧
      (∀ frame ∈ buffer.drain.frames, frame.Fits buffer.limit) ∧
      buffer.drain.rest.limit = buffer.limit := by
  induction buffer using drain.induct with
  | case1 buffer fault hnext =>
    rw [drain_of_nextFrame_error hnext]
    exact ⟨rfl, List.forall_mem_nil _, rfl⟩
  | case2 buffer hnext =>
    rw [drain_of_nextFrame_none hnext]
    exact ⟨rfl, List.forall_mem_nil _, rfl⟩
  | case3 buffer frame rest hnext hlt ih =>
    obtain ⟨hbytes, hfits, hlimit⟩ := eq_of_nextFrame hnext
    obtain ⟨hrest, hlater, hsame⟩ := ih
    rw [drain_of_nextFrame_some hnext]
    refine ⟨?_, ?_, hsame.trans hlimit⟩
    · rw [hbytes, List.flatMap_cons, List.append_assoc, ← hrest]
    · rw [← hlimit]
      exact List.forall_mem_cons.mpr ⟨hlimit ▸ hfits, hlater⟩

/-- What more bytes would be refused with, is refused now. -/
theorem drain_fault_feed {buffer : Reassembly} {failure : Failure}
    (h : buffer.drain.fault = some failure) (later : Bytes) :
    (buffer.feed later).drain.fault = some failure := by
  induction buffer using drain.induct with
  | case1 buffer fault hnext =>
    rw [drain_of_nextFrame_error hnext] at h
    rw [drain_of_nextFrame_error (nextFrame_feed_of_error hnext later)]
    exact h
  | case2 buffer hnext =>
    rw [drain_of_nextFrame_none hnext] at h
    cases h
  | case3 buffer frame rest hnext hlt ih =>
    rw [drain_of_nextFrame_some hnext] at h
    rw [drain_of_nextFrame_some (nextFrame_feed hnext later)]
    exact ih h

/-- The beginning of a stream of frames that fit is not refused. -/
theorem drain_fault_of_flatMap_encode {buffer : Reassembly} {frames : List Frame} {later : Bytes}
    (hfits : ∀ frame ∈ frames, frame.Fits buffer.limit)
    (h : buffer.bytes ++ later = frames.flatMap Frame.encode) : buffer.drain.fault = none := by
  cases hfault : buffer.drain.fault with
  | none => rfl
  | some failure =>
    have hwhole : buffer.feed later = ⟨frames.flatMap Frame.encode, buffer.limit⟩ := by
      rw [← h]
      rfl
    have hmore := drain_fault_feed hfault later
    rw [hwhole, drain_flatMap_encode hfits] at hmore
    cases hmore

/-- The beginning of a stream with a handshake in front is not refused, and gives out that
handshake if any. -/
theorem takeHandshake_of_encode {buffer : Reassembly} {handshake : Handshake} {later rest : Bytes}
    (h : buffer.bytes ++ later = handshake.encode ++ rest) :
    buffer.takeHandshake = .ok none ∨
      ∃ left, buffer.takeHandshake = .ok (some (handshake, left)) := by
  have hwhole : (buffer.feed later).takeHandshake =
      .ok (some (handshake, ⟨rest, buffer.limit⟩)) :=
    takeHandshake_eq_some_iff.mpr ⟨h, rfl⟩
  cases htaken : buffer.takeHandshake with
  | error failure =>
    rw [takeHandshake_feed_of_error htaken later] at hwhole
    cases hwhole
  | ok taken? =>
    cases taken? with
    | none => exact .inl rfl
    | some taken =>
      rw [takeHandshake_feed htaken later] at hwhole
      obtain ⟨hsame, -⟩ := Prod.mk.inj (Option.some.inj (Except.ok.inj hwhole))
      exact .inr ⟨taken.2, by rw [← hsame]⟩

end Reassembly
end PeerLink
