import PeerLink.Proofs.Connection.Outbound
import PeerLink.Proofs.Connection.Round

/-!
# Rounds over a reliable transport

A reliable transport does not fail and does not end.  It may deliver bytes in chunks of
any size, accept a frame in parts, and put off the connection at any time.  Over such a
transport, a round goes on behind the bytes that it reads or breaks off because one of
them is refused, and so do rounds in a row, however the bytes are dealt out to them.
-/

namespace PeerLink

/-- Nothing is wrong with the transport: it is to be asked again. -/
def TransportFault.IsPassing (fault : TransportFault) : Prop :=
  fault = .wouldBlock ∨ fault = .interrupted

instance (fault : TransportFault) : Decidable fault.IsPassing :=
  inferInstanceAs (Decidable (_ ∨ _))

/-- The bytes of an answer. -/
def ReadAnswer.bytes : ReadAnswer → Bytes
  | .data chunk => chunk
  | .fault _ => []

/-- The read brings bytes, or is to be tried again. -/
def ReadAnswer.IsGood : ReadAnswer → Prop
  | .data chunk => chunk ≠ []
  | .fault cause => cause.IsPassing

instance (answer : ReadAnswer) : Decidable answer.IsGood :=
  match answer with
  | .data chunk => inferInstanceAs (Decidable (chunk ≠ []))
  | .fault cause => inferInstanceAs (Decidable cause.IsPassing)

/-- The write accepts bytes, or is to be tried again. -/
def WriteAnswer.IsGood : WriteAnswer → Prop
  | .accept count => 0 < count
  | .fault cause => cause.IsPassing

instance (answer : WriteAnswer) : Decidable answer.IsGood :=
  match answer with
  | .accept count => inferInstanceAs (Decidable (0 < count))
  | .fault cause => inferInstanceAs (Decidable cause.IsPassing)

namespace Transport

/-- All bytes that the answers bring. -/
def unread (reads : List ReadAnswer) : Bytes := reads.flatMap ReadAnswer.bytes

/-- The transport is open, and neither fails nor ends. -/
structure IsReliable (transport : Transport) : Prop where
  connected : transport.connected = true
  reads : ∀ answer ∈ transport.reads, answer.IsGood
  writes : ∀ answer ∈ transport.writes, answer.IsGood

/-! ## Reading and writing -/

theorem readFrom_of_isGood (limit total : Nat) {reads : List ReadAnswer}
    (h : ∀ answer ∈ reads, answer.IsGood) :
    (readFrom limit total reads).fault = none ∧
      (readFrom limit total reads).data ++ unread (readFrom limit total reads).reads =
        unread reads ∧
      (readFrom limit total reads).reads <:+ reads := by
  fun_induction readFrom limit total reads with
  | case1 total => exact ⟨rfl, rfl, List.suffix_rfl⟩
  | case2 total answer rest _ => exact ⟨rfl, rfl, List.suffix_rfl⟩
  | case3 total rest _ => exact absurd rfl (List.forall_mem_cons.mp h).1
  | case4 total rest _ chunk _ later ih =>
    obtain ⟨hfault, hbytes, hsuffix⟩ := ih (List.forall_mem_cons.mp h).2
    refine ⟨hfault, ?_, hsuffix.trans (List.suffix_cons _ rest)⟩
    exact (List.append_assoc ..).trans (congrArg (chunk ++ ·) hbytes)
  | case5 total rest _ => exact ⟨rfl, rfl, List.suffix_cons _ rest⟩
  | case6 total rest _ ih =>
    obtain ⟨hfault, hbytes, hsuffix⟩ := ih (List.forall_mem_cons.mp h).2
    exact ⟨hfault, hbytes, hsuffix.trans (List.suffix_cons _ rest)⟩
  | case7 total rest _ fault hblock hinterrupt =>
    rcases (List.forall_mem_cons.mp h).1 with hpassing | hpassing
    · exact absurd hpassing hblock
    · exact absurd hpassing hinterrupt

theorem writeFrame_of_isGood {frame : Bytes} (hframe : frame ≠ []) {writes : List WriteAnswer}
    (h : ∀ answer ∈ writes, answer.IsGood) :
    (writeFrame frame writes).fault = none ∧ (writeFrame frame writes).writes <:+ writes := by
  fun_induction writeFrame frame writes with
  | case1 frame hempty => exact absurd (List.isEmpty_iff.mp hempty) hframe
  | case2 frame hfull => exact ⟨rfl, List.suffix_rfl⟩
  | case3 frame rest => exact ⟨rfl, List.suffix_cons _ rest⟩
  | case4 frame rest ih =>
    obtain ⟨hfault, hsuffix⟩ := ih hframe (List.forall_mem_cons.mp h).2
    exact ⟨hfault, hsuffix.trans (List.suffix_cons _ rest)⟩
  | case5 frame fault rest hblock hinterrupt =>
    rcases (List.forall_mem_cons.mp h).1 with hpassing | hpassing
    · exact absurd hpassing hblock
    · exact absurd hpassing hinterrupt
  | case6 frame count rest hnothing =>
    have hcount : 0 < count := (List.forall_mem_cons.mp h).1
    have hlength := List.length_pos_iff.mpr hframe
    omega
  | case7 frame count rest _ _ => exact ⟨rfl, List.suffix_cons _ rest⟩
  | case8 frame count rest _ hlong later ih =>
    have hleft : frame.drop count ≠ [] := by
      rw [ne_eq, List.drop_eq_nil_iff]
      exact hlong
    obtain ⟨hfault, hsuffix⟩ := ih hleft (List.forall_mem_cons.mp h).2
    exact ⟨hfault, hsuffix.trans (List.suffix_cons _ rest)⟩

theorem writeAll_of_isGood {frames : List Bytes} (hframes : ∀ frame ∈ frames, frame ≠ [])
    {writes : List WriteAnswer} (h : ∀ answer ∈ writes, answer.IsGood) :
    (writeAll writes frames).fault = none ∧ (writeAll writes frames).writes <:+ writes := by
  induction frames generalizing writes with
  | nil => exact ⟨rfl, List.suffix_rfl⟩
  | cons frame rest ih =>
    obtain ⟨hframe, hrest⟩ := List.forall_mem_cons.mp hframes
    obtain ⟨hfault, hsuffix⟩ := writeFrame_of_isGood hframe h
    rw [writeAll]
    split
    · have hleft : ∀ answer ∈ (writeFrame frame writes).writes, answer.IsGood :=
        fun answer hanswer => h answer (hsuffix.subset hanswer)
      obtain ⟨hlater, hshorter⟩ := ih hrest hleft
      exact ⟨hlater, hshorter.trans hsuffix⟩
    · exact ⟨hfault, hsuffix⟩

end Transport

/-- Nothing but bytes to read, room to write and rounds of work. -/
def Move.Delivers {X Y : Type} : Move X Y → Prop
  | .stir (.feed answers) => ∀ answer ∈ answers, answer.IsGood
  | .stir (.planWrites answers) => ∀ answer ∈ answers, answer.IsGood
  | .call _ .process => True
  | _ => False

instance {X Y : Type} (m : Move X Y) : Decidable m.Delivers :=
  match m with
  | .stir (.feed answers) => inferInstanceAs (Decidable (∀ answer ∈ answers, answer.IsGood))
  | .stir (.planWrites answers) => inferInstanceAs (Decidable (∀ answer ∈ answers, answer.IsGood))
  | .call _ .process => .isTrue trivial
  | .stir (.failConnect _) | .stir (.setConnected _) | .call _ .connect
  | .call _ (.handshake ..) | .call _ .disconnect | .call _ (.addModule _)
  | .call _ (.setPieceCount _) | .call _ .nextEvent | .call _ .drainEvents | .call _ (.send _)
  | .call _ (.sendBitfield ..) | .call _ (.sendExtended ..) | .call _ (.sendFromRegistry ..)
  | .call _ (.sendPeerExchange _) | .call _ (.grantAllowedFast ..) => .isFalse id

/-- The bytes that a move brings to the transport. -/
def Move.incoming {X Y : Type} : Move X Y → Bytes
  | .stir (.feed answers) => Transport.unread answers
  | _ => []

namespace Connection

variable {X Y : Type} {c d e : Connection X Y}

/-- The bytes that are there to be read, and behind them those that moves bring. -/
def incoming (c : Connection X Y) (moves : List (Move X Y)) : Bytes :=
  Transport.unread c.transport.reads ++ moves.flatMap Move.incoming

/-- There is nothing left to read, or no one to read it. -/
def HasRead (c : Connection X Y) : Prop :=
  c.isDown = true ∨ Transport.unread c.transport.reads = []

instance (c : Connection X Y) : Decidable c.HasRead := inferInstanceAs (Decidable (_ ∨ _))

theorem incoming_concat (c : Connection X Y) (moves : List (Move X Y)) (m : Move X Y) :
    c.incoming (moves ++ [m]) = c.incoming moves ++ m.incoming := by
  simp [incoming, List.append_assoc]

/-! ## One round -/

theorem arrival_of_isReliable (h : c.transport.IsReliable) :
    c.arrival.fault = none ∧
      c.arrival.data ++ Transport.unread c.arrival.reads = Transport.unread c.transport.reads ∧
      ∀ answer ∈ c.arrival.reads, answer.IsGood := by
  obtain ⟨hfault, hbytes, hsuffix⟩ :=
    Transport.readFrom_of_isGood c.config.readChunkSize 0 h.reads
  exact ⟨hfault, hbytes, fun answer hanswer => h.reads answer (hsuffix.subset hanswer)⟩

theorem flush_of_isReliable (hframed : c.IsFramed) (h : c.transport.IsReliable) :
    c.flush.2 = none ∧ c.flush.1.transport.IsReliable := by
  obtain ⟨hfault, hsuffix⟩ := Transport.writeAll_of_isGood hframed h.writes
  exact ⟨hfault, h.connected, h.reads, fun answer hanswer =>
    h.writes answer (hsuffix.subset hanswer)⟩

variable [Capability X] [SubProtocol Y]

/-- What became of bytes that were there to be read: the connection `c` went on behind
those that were read, or broke off. -/
inductive Digests (c : Connection X Y) (bytes : Bytes) (d : Connection X Y) : Prop where
  | goesOn (read : Bytes) (hread : read ++ Transport.unread d.transport.reads = bytes)
      (hup : d.isDown = false) (hreliable : d.transport.IsReliable) (h : GoesOn c read d)
  | breaksOff (read rest : Bytes) (hread : read ++ rest = bytes) (hdown : d.isDown = true)
      (h : BreaksOff c read d)

/-- A round over a reliable transport only fails if something is refused. -/
theorem process_digests (hup : c.isDown = false) (hframed : c.IsFramed)
    (h : c.transport.IsReliable) (now : Nat) :
    Digests c (Transport.unread c.transport.reads) (c.process now).1 := by
  have hopen : c.IsOpen := ⟨hup, h.connected⟩
  obtain ⟨hfault, hbytes, hreads⟩ := arrival_of_isReliable h
  obtain ⟨-, hsession, hbuffer, hevents, htransport⟩ := consumed_listens c now
  obtain ⟨hsteps, hconsumed⟩ := consumed_pollSteps hup now
  cases hresult : (c.listener.feed c.arrival.data).listen.result with
  | error failure =>
    have hpoll := poll_of_refused hfault hresult now
    rw [hopen.process_of_poll_failure hpoll]
    have hrefused : (c.listener.feed c.arrival.data).listen.result ≠ .ok () := by simp [hresult]
    exact .breaksOff c.arrival.data _ hbytes (isDown_teardown _)
      (teardown_breaksOff hconsumed hrefused hsession hevents)
  | ok =>
    have hreliable : (c.consumed now).transport.IsReliable := by
      rw [htransport]
      exact ⟨h.connected, hreads, h.writes⟩
    -- Writing an empty frame would look like the end of the channel, but none is queued.
    obtain ⟨hflush, hflushed⟩ := flush_of_isReliable (hframed.steps hsteps.steps) hreliable
    rcases poll_of_taken hfault hresult now with ⟨-, hpoll⟩ | ⟨failure, hfailure, -⟩
    · obtain ⟨-, hgoes, -⟩ := poll_goesOn hpoll
      obtain ⟨hlistener, hkeeps⟩ :=
        noteIdle_keeps (c.consumed now).flush.1 c.arrival.data.length
      rw [hopen.process_of_poll hpoll]
      refine .goesOn c.arrival.data ?_ ?_ ?_ hgoes
      · rw [hkeeps, ← hbytes]
        change _ ++ Transport.unread (c.consumed now).transport.reads = _
        rw [htransport]
      · exact (isDown_eq_of_standing (standing_noteIdle _ _)).trans hconsumed
      · rw [hkeeps]
        exact hflushed
    · rw [hflush] at hfailure
      cases hfailure

end Connection
end PeerLink
