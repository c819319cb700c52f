import PeerLink.Proofs.Wire.Exactness

/-!
# A stream in chunks

Chunks may arrive in any way, and frames may be asked for at any moment between them.
What a buffer gives out in total, what it keeps and what it refuses depends on the stream
alone: it is what parsing the stream frame by frame gives, up to the first frame that
declares more than the limit.
-/

namespace PeerLink

namespace Frame

theorem declaredLength?_eq_some_iff {bytes : Bytes} {length : Nat} :
    declaredLength? bytes = some length ↔
      ∃ word rest, Bytes.takeUInt32? bytes = some (word, rest) ∧ word.toNat = length := by
  constructor
  · intro h
    obtain ⟨⟨word, rest⟩, hword, hlength⟩ := Option.map_eq_some_iff.mp h
    exact ⟨word, rest, hword, hlength⟩
  · rintro ⟨word, rest, hword, rfl⟩
    rw [declaredLength?, hword, Option.map_some]

/-- The length can be read as soon as its four bytes are there. -/
theorem isSome_declaredLength? (bytes : Bytes) :
    (declaredLength? bytes).isSome = true ↔ 4 ≤ bytes.length := by
  match bytes with
  | [] | [_] | [_, _] | [_, _, _] => simp [declaredLength?, Bytes.takeUInt32?]
  | a :: b :: c :: d :: body => simp [declaredLength?, Bytes.takeUInt32?]

/-- Whether the length in front of the bytes is there, and above the limit. -/
def declaresAbove (limit : Nat) (bytes : Bytes) : Bool :=
  (declaredLength? bytes).any (limit < ·)

theorem declaresAbove_iff {limit : Nat} {bytes : Bytes} :
    declaresAbove limit bytes = true ↔
      ∃ length, declaredLength? bytes = some length ∧ limit < length := by
  simp [declaresAbove, Option.any_eq_true]

theorem split?_eq_of_parse? {bytes : Bytes} {frame : Frame} {count : Nat}
    (h : parse? bytes = some (frame, count)) : split? bytes = some (frame, bytes.drop count) := by
  obtain ⟨⟨frame', rest⟩, hsplit, hpair⟩ := Option.map_eq_some_iff.mp h
  obtain ⟨rfl, rfl⟩ := Prod.mk.inj hpair
  obtain ⟨⟨word, body⟩, hword, hbody⟩ := Option.bind_eq_some_iff.mp hsplit
  obtain ⟨⟨front, back⟩, hfront, hback⟩ := Option.bind_eq_some_iff.mp hbody
  obtain ⟨rfl, rfl⟩ := Prod.mk.inj (Option.some.inj hback)
  obtain ⟨-, rfl⟩ := Bytes.splitAt?_eq_some_iff.mp hfront
  have hbytes : bytes = (Bytes.ofUInt32 word ++ front) ++ back := by
    rw [Bytes.eq_of_takeUInt32? hword, List.append_assoc]
  have hcount : bytes.length - back.length = (Bytes.ofUInt32 word ++ front).length := by
    rw [hbytes, List.length_append]
    omega
  rw [hsplit, hcount]
  conv => rhs; rw [hbytes]
  rw [List.drop_left]

/-- The frames that the bytes parse as, one after another, up to the first that declares
more than the limit, and the bytes from there on. -/
def parseWithin (limit : Nat) (bytes : Bytes) : List Frame × Bytes :=
  if declaresAbove limit bytes then ([], bytes)
  else
    match h : parse? bytes with
    | none => ([], bytes)
    | some (frame, count) =>
      have := length_lt_of_split? (split?_eq_of_parse? h)
      let (frames, left) := parseWithin limit (bytes.drop count)
      (frame :: frames, left)
termination_by bytes.length
decreasing_by exact this

theorem parseWithin_of_none {limit : Nat} {bytes : Bytes}
    (habove : declaresAbove limit bytes = false) (h : parse? bytes = none) :
    parseWithin limit bytes = ([], bytes) := by
  rw [parseWithin, if_neg (by rw [habove]; decide)]
  split
  · rfl
  · next hparse =>
    rw [h] at hparse
    cases hparse

theorem parseWithin_of_some {limit : Nat} {bytes : Bytes} {frame : Frame} {count : Nat}
    (habove : declaresAbove limit bytes = false) (h : parse? bytes = some (frame, count)) :
    parseWithin limit bytes =
      (frame :: (parseWithin limit (bytes.drop count)).1,
        (parseWithin limit (bytes.drop count)).2) := by
  rw [parseWithin, if_neg (by rw [habove]; decide)]
  split
  · next hparse =>
    rw [h] at hparse
    cases hparse
  · next hparse =>
    rw [h] at hparse
    obtain ⟨rfl, rfl⟩ := Prod.mk.inj (Option.some.inj hparse)
    rfl

end Frame

namespace Reassembly

/-! ## A buffer reads what parsing reads -/

/-- Taking a frame off a buffer is parsing the bytes in it, unless a length above the limit
is refused first. -/
theorem nextFrame_eq_parse? {buffer : Reassembly}
    (h : Frame.declaresAbove buffer.limit buffer.bytes = false) :
    buffer.nextFrame = .ok ((Frame.parse? buffer.bytes).map fun parsed =>
      (parsed.1, { buffer with bytes := buffer.bytes.drop parsed.2 })) := by
  cases hword : Bytes.takeUInt32? buffer.bytes with
  | none =>
    have hparse : Frame.parse? buffer.bytes = none := by
      simp [Frame.parse?, Frame.split?, hword]
    simp [nextFrame, hword, hparse]
  | some read =>
    obtain ⟨word, body⟩ := read
    have hlimit : ¬ buffer.limit < word.toNat := by
      simpa [Frame.declaresAbove, Frame.declaredLength?, hword] using h
    cases hsplit : Bytes.splitAt? word.toNat body with
    | none =>
      have hparse : Frame.parse? buffer.bytes = none := by
        simp [Frame.parse?, Frame.split?, hword, hsplit]
      simp [nextFrame, hword, hlimit, hsplit, hparse]
    | some cut =>
      obtain ⟨front, back⟩ := cut
      have hparse : Frame.parse? buffer.bytes =
          some (.ofBody front, buffer.bytes.length - back.length) := by
        simp [Frame.parse?, Frame.split?, hword, hsplit]
      have hdrop : back = buffer.bytes.drop (buffer.bytes.length - back.length) := by
        simpa [Frame.split?, hword, hsplit] using Frame.split?_eq_of_parse? hparse
      simp [nextFrame, hword, hlimit, hsplit, hparse, ← hdrop]

theorem nextFrame_eq_error_iff {buffer : Reassembly} {failure : Failure} :
    buffer.nextFrame = .error failure ↔
      ∃ length, Frame.declaredLength? buffer.bytes = some length ∧ buffer.limit < length ∧
        failure = .frameTooLarge length := by
  constructor
  · intro h
    cases habove : Frame.declaresAbove buffer.limit buffer.bytes with
    | false =>
      rw [nextFrame_eq_parse? habove] at h
      cases h
    | true =>
      obtain ⟨length, hlength, hlimit⟩ := Frame.declaresAbove_iff.mp habove
      refine ⟨length, hlength, hlimit, ?_⟩
      obtain ⟨word, rest, hword, rfl⟩ := Frame.declaredLength?_eq_some_iff.mp hlength
      simpa [nextFrame, hword, hlimit] using h.symm
  · rintro ⟨length, hlength, hlimit, rfl⟩
    obtain ⟨word, rest, hword, rfl⟩ := Frame.declaredLength?_eq_some_iff.mp hlength
    simp [nextFrame, hword, hlimit]

theorem not_declaresAbove_of_ok {buffer : Reassembly}
    {next? : Option (Frame × Reassembly)} (h : buffer.nextFrame = .ok next?) :
    Frame.declaresAbove buffer.limit buffer.bytes = false := by
  rw [Bool.eq_false_iff]
  intro habove
  obtain ⟨length, hlength, hlimit⟩ := Frame.declaresAbove_iff.mp habove
  rw [nextFrame_eq_error_iff.mpr ⟨length, hlength, hlimit, rfl⟩] at h
  cases h

/-- Draining a buffer parses what is in it. -/
theorem drain_eq_parseWithin (buffer : Reassembly) :
    (buffer.drain.frames, buffer.drain.rest.bytes) =
      Frame.parseWithin buffer.limit buffer.bytes := by
  induction buffer using drain.induct with
  | case1 buffer failure hnext =>
    obtain ⟨length, hlength, hlimit, -⟩ := nextFrame_eq_error_iff.mp hnext
    have habove := Frame.declaresAbove_iff.mpr ⟨length, hlength, hlimit⟩
    rw [drain_of_nextFrame_error hnext, Frame.parseWithin, if_pos habove]
  | case2 buffer hnext =>
    have habove := not_declaresAbove_of_ok hnext
    rw [nextFrame_eq_parse? habove] at hnext
    have hparse := Option.map_eq_none_iff.mp (Except.ok.inj hnext)
    rw [drain_of_nextFrame_none (by rw [nextFrame_eq_parse? habove, hparse]; rfl),
      Frame.parseWithin_of_none habove hparse]
  | case3 buffer frame rest hnext hlt ih =>
    have habove := not_declaresAbove_of_ok hnext
    have hparsed := hnext
    rw [nextFrame_eq_parse? habove] at hparsed
    obtain ⟨⟨frame', count⟩, hparse, hpair⟩ :=
      Option.map_eq_some_iff.mp (Except.ok.inj hparsed)
    obtain ⟨rfl, rfl⟩ := Prod.mk.inj hpair
    rw [drain_of_nextFrame_some hnext, Frame.parseWithin_of_some habove hparse, ← ih]

/-- Draining ends at a refusal exactly if what is left declares too much. -/
theorem drain_fault_eq_some_iff {buffer : Reassembly} {failure : Failure} :
    buffer.drain.fault = some failure ↔ buffer.drain.rest.nextFrame = .error failure := by
  induction buffer using drain.induct with
  | case1 buffer fault hnext =>
    rw [drain_of_nextFrame_error hnext]
    dsimp only
    rw [hnext, Option.some.injEq, Except.error.injEq]
  | case2 buffer hnext =>
    rw [drain_of_nextFrame_none hnext]
    dsimp only
    rw [hnext]
    constructor
    · intro h
      cases h
    · intro h
      cases h
  | case3 buffer frame rest hnext hlt ih =>
    rw [drain_of_nextFrame_some hnext]
    exact ih

/-! ## What a buffer gives out -/

/-- The buffer gives out the frames one after another, and then it is the last one. -/
inductive Gives : Reassembly → List Frame → Reassembly → Prop where
  | nothing (buffer : Reassembly) : Gives buffer [] buffer
  | next {buffer rest last : Reassembly} {frame : Frame} {frames : List Frame}
      (hnext : buffer.nextFrame = .ok (some (frame, rest))) (hlater : Gives rest frames last) :
      Gives buffer (frame :: frames) last

namespace Gives

variable {buffer last : Reassembly} {frames : List Frame}

theorem feed (h : Gives buffer frames last) (chunk : Bytes) :
    Gives (buffer.feed chunk) frames (last.feed chunk) := by
  induction h with
  | nothing buffer => exact .nothing _
  | next hnext _ ih => exact .next (nextFrame_feed hnext chunk) ih

theorem concat {rest : Reassembly} {frame : Frame} (h : Gives buffer frames last)
    (hnext : last.nextFrame = .ok (some (frame, rest))) :
    Gives buffer (frames ++ [frame]) rest := by
  induction h with
  | nothing buffer => exact .next hnext (.nothing _)
  | next hfirst _ ih => exact .next hfirst (ih hnext)

/-- Frames that were given out before are those that draining begins with. -/
theorem drain_eq (h : Gives buffer frames last) :
    buffer.drain = { last.drain with frames := frames ++ last.drain.frames } := by
  induction h with
  | nothing buffer => rfl
  | next hnext _ ih =>
    rw [drain_of_nextFrame_some hnext, ih]
    rfl

end Gives

/-! ## Chunks and questions in any order -/

/-- What can be done with a buffer: a chunk arrives, or the next frame is asked for. -/
inductive Access where
  | feed (chunk : Bytes)
  | next

/-- A buffer with what it gave out and what it refused so far. -/
structure Reading where
  buffer : Reassembly
  frames : List Frame
  refusals : List Failure

namespace Reading

def start (limit : Nat) : Reading := ⟨.empty limit, [], []⟩

/-- A refusal leaves the buffer as it is. -/
def access (reading : Reading) : Access → Reading
  | .feed chunk => { reading with buffer := reading.buffer.feed chunk }
  | .next =>
    match reading.buffer.nextFrame with
    | .ok none => reading
    | .ok (some (frame, rest)) =>
      { reading with buffer := rest, frames := reading.frames ++ [frame] }
    | .error failure => { reading with refusals := reading.refusals ++ [failure] }

/-- What some accesses lead to, oldest first. -/
def play (reading : Reading) (accesses : List Access) : Reading :=
  accesses.foldl access reading

/-- What a reading gives out, keeps and refuses in total, once the buffer is drained. -/
def total (reading : Reading) : Drained :=
  { reading.buffer.drain with frames := reading.frames ++ reading.buffer.drain.frames }

end Reading

/-- The stream that arrived in chunks. -/
def Access.stream (accesses : List Access) : Bytes :=
  accesses.flatMap fun
    | .feed chunk => chunk
    | .next => []

namespace Reading

/-- The reading made something of a stream: the frames it has are the first of the stream,
its buffer holds all behind them, and what it refused it still refuses. -/
structure Reads (limit : Nat) (stream : Bytes) (reading : Reading) : Prop where
  gives : Gives ((Reassembly.empty limit).feed stream) reading.frames reading.buffer
  refuses : ∀ failure ∈ reading.refusals, reading.buffer.nextFrame = .error failure

theorem Reads.access {limit : Nat} {stream : Bytes} {reading : Reading}
    (h : reading.Reads limit stream) (access : Access) :
    (reading.access access).Reads limit (stream ++ Access.stream [access]) := by
  cases access with
  | feed chunk =>
    have hstream : stream ++ Access.stream [.feed chunk] = stream ++ chunk := by
      simp [Access.stream]
    rw [hstream]
    constructor
    · rw [Reassembly.feed_append]
      exact h.gives.feed chunk
    · intro failure hfailure
      exact nextFrame_feed_of_error (h.refuses failure hfailure) chunk
  | next =>
    have hstream : stream ++ Access.stream [.next] = stream := by
      simp [Access.stream]
    rw [hstream, Reading.access]
    split
    · exact h
    · next frame rest hnext =>
      constructor
      · exact h.gives.concat hnext
      · intro failure hfailure
        rw [h.refuses failure hfailure] at hnext
        cases hnext
    · next failure hnext =>
      constructor
      · exact h.gives
      · intro failure' hfailure
        rcases List.mem_append.mp hfailure with hold | hnew
        · exact h.refuses failure' hold
        · rw [List.mem_singleton.mp hnew]
          exact hnext

theorem Reads.play {limit : Nat} {stream : Bytes} {reading : Reading}
    (h : reading.Reads limit stream) (accesses : List Access) :
    (reading.play accesses).Reads limit (stream ++ Access.stream accesses) := by
  induction accesses generalizing stream reading with
  | nil =>
    rw [Access.stream, List.flatMap_nil, List.append_nil]
    exact h
  | cons access rest ih =>
    have hstream : stream ++ Access.stream (access :: rest) =
        stream ++ Access.stream [access] ++ Access.stream rest := by
      simp [Access.stream]
    rw [hstream]
    exact ih (h.access access)

theorem play_reads (limit : Nat) (accesses : List Access) :
    ((start limit).play accesses).Reads limit (Access.stream accesses) := by
  have hstart : (start limit).Reads limit [] := by
    constructor
    · rw [feed_nil]
      exact .nothing _
    · intro failure hfailure
      exact absurd hfailure List.not_mem_nil
  simpa using hstart.play accesses

theorem Reads.total_eq {limit : Nat} {stream : Bytes} {reading : Reading}
    (h : reading.Reads limit stream) : reading.total = ((empty limit).feed stream).drain :=
  h.gives.drain_eq.symm

theorem Reads.limit_eq {limit : Nat} {stream : Bytes} {reading : Reading}
    (h : reading.Reads limit stream) : reading.buffer.limit = limit := by
  have hrest := congrArg Drained.rest h.total_eq
  have hbuffer := (eq_drain reading.buffer).2.2
  have hwhole := (eq_drain ((empty limit).feed stream)).2.2
  rw [← hrest] at hwhole
  exact hbuffer.symm.trans hwhole

/-- Whatever the chunks of a stream are, and whenever the next frame is asked for between
them, the buffer gives out, keeps and refuses in total what it does when the stream comes
at once.  These are the frames that parsing reads, up to the first length above the limit.
That one is refused as soon as its four bytes are there, and nothing is taken. -/
theorem total_eq_of_stream (limit : Nat) (accesses : List Access) :
    let stream := Access.stream accesses
    let reading := (start limit).play accesses
    let whole := ((empty limit).feed stream).drain
    reading.total = whole ∧
      (∀ failure ∈ reading.refusals, whole.fault = some failure) ∧
      (whole.frames, whole.rest.bytes) = Frame.parseWithin limit stream ∧
      (∀ failure, whole.fault = some failure ↔
        ∃ length, Frame.declaredLength? whole.rest.bytes = some length ∧ limit < length ∧
          failure = .frameTooLarge length) ∧
      (4 ≤ reading.buffer.bytes.length →
        ∃ length, Frame.declaredLength? reading.buffer.bytes = some length ∧
          (limit < length → reading.access .next =
            { reading with refusals := reading.refusals ++ [.frameTooLarge length] })) := by
  intro stream reading whole
  have hreads : reading.Reads limit stream := play_reads limit accesses
  have htotal : reading.total = whole := hreads.total_eq
  have hlimit : whole.rest.limit = limit := (eq_drain _).2.2
  refine ⟨htotal, ?_, drain_eq_parseWithin _, ?_, ?_⟩
  · intro failure hfailure
    have hdrain := drain_of_nextFrame_error (hreads.refuses failure hfailure)
    rw [← htotal, total, hdrain]
  · intro failure
    rw [← hlimit]
    exact drain_fault_eq_some_iff.trans nextFrame_eq_error_iff
  · intro hprefix
    obtain ⟨length, hlength⟩ := Option.isSome_iff_exists.mp
      ((Frame.isSome_declaredLength? reading.buffer.bytes).mpr hprefix)
    refine ⟨length, hlength, ?_⟩
    intro habove
    rw [← hreads.limit_eq] at habove
    have hnext := nextFrame_eq_error_iff.mpr ⟨length, hlength, habove, rfl⟩
    rw [access, hnext]

end Reading

end Reassembly
end PeerLink
