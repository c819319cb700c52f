import Mathlib.Data.List.Induction
import PeerLink.Proofs.Wire.Exactness

/-!
# Waiting for the peer's handshake

While the peer's handshake arrives in chunks, a buffer is asked for it behind every chunk.
The first answer comes as soon as there is anything to say.  Another protocol is refused
with the first chunk that shows it, and then the buffer keeps all bytes; otherwise the
handshake is taken with the chunk that completes it, and then the buffer keeps what follows.
-/

namespace PeerLink

namespace Handshake

/-- At one of the places of the opening there is another byte. -/
def Deviates (bytes : Bytes) : Prop :=
  ∃ place byte, place < 20 ∧ bytes[place]? = some byte ∧ opening[place]? ≠ some byte

/-- The bytes do not show another protocol, and there are too few for a handshake. -/
def IsAwaited (bytes : Bytes) : Prop := ¬ Deviates bytes ∧ bytes.length < size

theorem isAwaited_nil : IsAwaited [] := by
  constructor
  · rintro ⟨place, byte, -, hbyte, -⟩
    cases hbyte
  · decide

theorem agrees_iff_not_deviates {bytes : Bytes} : agrees bytes = true ↔ ¬ Deviates bytes := by
  rw [agrees, List.isPrefixOf_iff_prefix, List.prefix_iff_getElem?]
  constructor
  · rintro h ⟨place, byte, hplace, hbyte, hother⟩
    have htake : (bytes.take 20)[place]? = some byte := by
      rw [List.getElem?_take_of_lt hplace, hbyte]
    obtain ⟨hlt, rfl⟩ := List.getElem?_eq_some_iff.mp htake
    exact hother (h place hlt)
  · intro h place hlt
    have hplace : place < 20 := Nat.lt_of_lt_of_le hlt (List.length_take_le 20 bytes)
    have hbyte : bytes[place]? = some (bytes.take 20)[place] := by
      rw [← List.getElem?_take_of_lt hplace]
      exact List.getElem?_eq_getElem hlt
    by_contra hother
    exact h ⟨place, _, hplace, hbyte, hother⟩

end Handshake

namespace Reassembly

/-! ## One question -/

theorem takeHandshake_eq_error_iff {buffer : Reassembly} {failure : Failure} :
    buffer.takeHandshake = .error failure ↔
      failure = .unsupportedProtocol ∧ Handshake.Deviates buffer.bytes := by
  by_cases hagrees : Handshake.agrees buffer.bytes = true
  · have hsame := Handshake.agrees_iff_not_deviates.mp hagrees
    rw [takeHandshake, if_pos hagrees]
    constructor
    · intro h
      split at h <;> cases h
    · rintro ⟨-, hdeviates⟩
      exact absurd hdeviates hsame
  · have hdeviates : Handshake.Deviates buffer.bytes := by
      rwa [Handshake.agrees_iff_not_deviates, not_not] at hagrees
    rw [takeHandshake, if_neg hagrees]
    constructor
    · intro h
      exact ⟨(Except.error.inj h).symm, hdeviates⟩
    · rintro ⟨rfl, -⟩
      rfl

theorem takeHandshake_eq_none_iff {buffer : Reassembly} :
    buffer.takeHandshake = .ok none ↔ Handshake.IsAwaited buffer.bytes := by
  rw [Handshake.IsAwaited, ← Handshake.agrees_iff_not_deviates, takeHandshake]
  constructor
  · intro h
    split at h
    · next hagrees =>
      refine ⟨hagrees, ?_⟩
      by_contra hlong
      obtain ⟨handshake, hsplit⟩ := Handshake.exists_split? (Nat.not_lt.mp hlong)
      rw [hsplit] at h
      cases h
    · cases h
  · rintro ⟨hagrees, hshort⟩
    rw [if_pos hagrees]
    cases hsplit : Handshake.split? buffer.bytes with
    | none => rfl
    | some taken =>
      obtain ⟨handshake, rest⟩ := taken
      have hlength := congrArg List.length (Handshake.eq_of_split? hagrees hsplit)
      rw [List.length_append, Handshake.length_encode] at hlength
      omega

/-- A handshake that is taken is spelled by the first bytes, and all others are kept. -/
theorem of_takeHandshake_eq_some {buffer rest : Reassembly} {handshake : Handshake}
    (h : buffer.takeHandshake = .ok (some (handshake, rest))) :
    ¬ Handshake.Deviates buffer.bytes ∧ Handshake.size ≤ buffer.bytes.length ∧
      handshake.encode = buffer.bytes.take Handshake.size ∧
      rest = { buffer with bytes := buffer.bytes.drop Handshake.size } := by
  obtain ⟨hbytes, hlimit⟩ := takeHandshake_eq_some_iff.mp h
  have hsize := handshake.length_encode
  refine ⟨?_, ?_, ?_, ?_⟩
  · intro hdeviates
    rw [takeHandshake_eq_error_iff.mpr ⟨rfl, hdeviates⟩] at h
    cases h
  · rw [hbytes, List.length_append, hsize]
    exact Nat.le_add_right _ _
  · rw [hbytes, ← hsize, List.take_left]
  · rw [hbytes, ← hsize, List.drop_left, ← hlimit]

/-! ## Chunk by chunk -/

/-- What came of asking for the handshake behind every chunk, up to the first answer. -/
structure Asked where
  /-- The number of chunks that had arrived when the answer was given. -/
  count : Nat
  /-- The buffer behind the answer. -/
  buffer : Reassembly
  /-- The handshake or its refusal, unless it is still to come. -/
  answer : Option (Except Failure Handshake)

/-- Feeds chunks one after another and asks for the handshake behind each, as long as it is
not all there. -/
def askAfterEach (buffer : Reassembly) : List Bytes → Asked
  | [] => ⟨0, buffer, none⟩
  | chunk :: later =>
    let fed := buffer.feed chunk
    match fed.takeHandshake with
    | .error failure => ⟨1, fed, some (.error failure)⟩
    | .ok (some (handshake, rest)) => ⟨1, rest, some (.ok handshake)⟩
    | .ok none =>
      let asked := fed.askAfterEach later
      { asked with count := asked.count + 1 }

/-- The buffer with some of the chunks, none of which was taken out again. -/
def arrived (buffer : Reassembly) (chunks : List Bytes) (count : Nat) : Reassembly :=
  buffer.feed (chunks.take count).flatten

theorem arrived_zero (buffer : Reassembly) (chunks : List Bytes) :
    buffer.arrived chunks 0 = buffer := feed_nil buffer

theorem arrived_cons_succ (buffer : Reassembly) (chunk : Bytes) (later : List Bytes)
    (count : Nat) :
    buffer.arrived (chunk :: later) (count + 1) = (buffer.feed chunk).arrived later count := by
  rw [arrived, arrived, List.take_succ_cons, List.flatten_cons, feed_append]

/-- The answer is right for the chunks that arrived, and the handshake was still awaited
with fewer of them. -/
structure Answers (buffer : Reassembly) (chunks : List Bytes) (asked : Asked) : Prop where
  awaited : ∀ count < asked.count, Handshake.IsAwaited (buffer.arrived chunks count).bytes
  unanswered : asked.answer = none →
    asked.count = chunks.length ∧ Handshake.IsAwaited asked.buffer.bytes ∧
      asked.buffer = buffer.arrived chunks asked.count
  refused : ∀ failure, asked.answer = some (.error failure) →
    failure = .unsupportedProtocol ∧ Handshake.Deviates asked.buffer.bytes ∧
      asked.buffer = buffer.arrived chunks asked.count
  taken : ∀ handshake, asked.answer = some (.ok handshake) →
    (buffer.arrived chunks asked.count).takeHandshake = .ok (some (handshake, asked.buffer))

theorem askAfterEach_answers {buffer : Reassembly} (h : Handshake.IsAwaited buffer.bytes)
    (chunks : List Bytes) : Answers buffer chunks (buffer.askAfterEach chunks) := by
  induction chunks generalizing buffer with
  | nil =>
    refine ⟨?_, ?_, ?_, ?_⟩
    · intro count hcount
      exact absurd hcount (Nat.not_lt_zero count)
    · intro _
      exact ⟨rfl, h, (arrived_zero buffer []).symm⟩
    · intro failure hanswer
      cases hanswer
    · intro handshake hanswer
      cases hanswer
  | cons chunk later ih =>
    have hone : buffer.arrived (chunk :: later) 1 = buffer.feed chunk := by
      rw [arrived_cons_succ, arrived_zero]
    have hbefore : ∀ count < 1,
        Handshake.IsAwaited (buffer.arrived (chunk :: later) count).bytes := by
      intro count hcount
      obtain rfl := Nat.lt_one_iff.mp hcount
      rw [arrived_zero]
      exact h
    rw [askAfterEach]
    dsimp only
    split
    · next failure hrefused =>
      refine ⟨hbefore, ?_, ?_, ?_⟩
      · intro hanswer
        cases hanswer
      · intro failure' hanswer
        obtain rfl := Except.error.inj (Option.some.inj hanswer)
        obtain ⟨hfailure, hdeviates⟩ := takeHandshake_eq_error_iff.mp hrefused
        exact ⟨hfailure, hdeviates, hone.symm⟩
      · intro handshake hanswer
        cases hanswer
    · next handshake rest htaken =>
      refine ⟨hbefore, ?_, ?_, ?_⟩
      · intro hanswer
        cases hanswer
      · intro failure hanswer
        cases hanswer
      · intro handshake' hanswer
        obtain rfl := Except.ok.inj (Option.some.inj hanswer)
        exact (congrArg takeHandshake hone).trans htaken
    · next hawaits =>
      have hlater := ih (takeHandshake_eq_none_iff.mp hawaits)
      have harrived := arrived_cons_succ buffer chunk later
        ((buffer.feed chunk).askAfterEach later).count
      refine ⟨?_, ?_, ?_, ?_⟩
      · intro count hcount
        cases count with
        | zero => exact hbefore 0 Nat.zero_lt_one
        | succ count =>
          rw [arrived_cons_succ]
          exact hlater.awaited count (Nat.lt_of_succ_lt_succ hcount)
      · intro hanswer
        obtain ⟨hcount, hawaited, hbuffer⟩ := hlater.unanswered hanswer
        exact ⟨congrArg (· + 1) hcount, hawaited, hbuffer.trans harrived.symm⟩
      · intro failure hanswer
        obtain ⟨hfailure, hdeviates, hbuffer⟩ := hlater.refused failure hanswer
        exact ⟨hfailure, hdeviates, hbuffer.trans harrived.symm⟩
      · intro handshake hanswer
        exact (congrArg takeHandshake harrived).trans (hlater.taken handshake hanswer)

/-- Whatever the chunks of a stream are, the handshake is awaited until the first chunk with
which there is something to say.  If the bytes deviate from the opening then, the protocol
is refused and the buffer keeps all of them.  If they do not, there are enough of them, and
the handshake that the stream begins with is taken; the buffer keeps the others.  A
handshake is read back from its own bytes, whatever follows them. -/
theorem first_answer_of_chunks (limit : Nat) (chunks : List Bytes) :
    let stream := chunks.flatten
    let asked := (empty limit).askAfterEach chunks
    let arrived := (chunks.take asked.count).flatten
    (∀ count < asked.count, Handshake.IsAwaited (chunks.take count).flatten) ∧
      (match asked.answer with
        | none =>
          asked.count = chunks.length ∧ Handshake.IsAwaited stream ∧
            asked.buffer = ⟨stream, limit⟩
        | some (.error failure) =>
          failure = .unsupportedProtocol ∧ Handshake.Deviates arrived ∧
            asked.buffer = ⟨arrived, limit⟩
        | some (.ok handshake) =>
          ¬ Handshake.Deviates arrived ∧ Handshake.size ≤ arrived.length ∧
            handshake.encode = stream.take Handshake.size ∧
            asked.buffer = ⟨arrived.drop Handshake.size, limit⟩ ∧
            asked.buffer.bytes ++ (chunks.drop asked.count).flatten =
              stream.drop Handshake.size) ∧
      ∀ (handshake : Handshake) (rest : Bytes),
        Handshake.decode (handshake.encode ++ rest) = .ok handshake := by
  intro stream asked arrived
  have hanswers : Answers (empty limit) chunks asked :=
    askAfterEach_answers Handshake.isAwaited_nil chunks
  refine ⟨hanswers.awaited, ?_, Handshake.decode_encode_append⟩
  split
  · next hanswer =>
    obtain ⟨hcount, hawaited, hbuffer⟩ := hanswers.unanswered hanswer
    have hall : (empty limit).arrived chunks asked.count = ⟨stream, limit⟩ := by
      rw [hcount, Reassembly.arrived, List.take_length]
      rfl
    rw [hall] at hbuffer
    rw [hbuffer] at hawaited
    exact ⟨hcount, hawaited, hbuffer⟩
  · next failure hanswer =>
    obtain ⟨hfailure, hdeviates, hbuffer⟩ := hanswers.refused failure hanswer
    rw [hbuffer] at hdeviates
    exact ⟨hfailure, hdeviates, hbuffer⟩
  · next handshake hanswer =>
    obtain ⟨hsame, hlong, hencode, hbuffer⟩ :=
      of_takeHandshake_eq_some (hanswers.taken handshake hanswer)
    have hstream : stream = arrived ++ (chunks.drop asked.count).flatten := by
      rw [← List.flatten_append, List.take_append_drop]
    have hlong : Handshake.size ≤ arrived.length := hlong
    refine ⟨hsame, hlong, ?_, hbuffer, ?_⟩
    · rw [hstream, List.take_append_of_le_length hlong]
      exact hencode
    · rw [hstream, List.drop_append_of_le_length hlong, hbuffer]
      rfl

end Reassembly
end PeerLink
