import PeerLink.Proofs.Connection.Posting
import PeerLink.Proofs.Connection.Reliable
import PeerLink.Proofs.Wire.Exactness

/-!
# What became of the bytes that were read

All that arrives is read or still waits to be read.  What a connection read is the
handshake of its peer, then the frames that were handed on, and then what its buffer
holds; before that handshake is complete, it is what the buffer holds.  This is true of
every run as long as the connection is up, whatever its owner does in between:
`play_intake`.
-/

namespace PeerLink

theorem Transport.readFrom_conserves (limit total : Nat) (reads : List ReadAnswer) :
    (readFrom limit total reads).data ++ unread (readFrom limit total reads).reads =
      unread reads := by
  fun_induction readFrom limit total reads with
  | case1 total => rfl
  | case2 total answer rest _ => rfl
  | case3 total rest _ => rfl
  | case4 total rest _ chunk _ later ih =>
    exact (List.append_assoc ..).trans (congrArg (chunk ++ ·) ih)
  | case5 total rest _ => rfl
  | case6 total rest _ ih => exact ih
  | case7 total rest _ fault hblock hinterrupt => rfl

/-- What is known of the handshake of the peer. -/
structure Acquaintance where
  received : Bool
  infoHash : Option Digest
  peerId : Option PeerId
  reserved : Option CapabilityBits

/-- Nothing is known yet. -/
def Acquaintance.none : Acquaintance := ⟨false, .none, .none, .none⟩

/-- What this handshake says. -/
def Acquaintance.of (handshake : Handshake) : Acquaintance :=
  ⟨true, some handshake.infoHash, some handshake.peerId, some handshake.reserved⟩

theorem Acquaintance.of_inj {first second : Handshake}
    (h : Acquaintance.of first = .of second) : first = second := by
  obtain ⟨reserved, infoHash, peerId⟩ := first
  obtain ⟨reserved', infoHash', peerId'⟩ := second
  simp only [of, Acquaintance.mk.injEq, Option.some.injEq, true_and] at h
  obtain ⟨rfl, rfl, rfl⟩ := h
  rfl

namespace Connection

variable {X Y : Type}

def acquaintance (c : Connection X Y) : Acquaintance :=
  ⟨c.state.handshakeReceived, c.remoteInfoHash, c.state.remotePeerId, c.state.remoteReserved⟩

/-- The bytes that a move reads. -/
def bytesIn (c : Connection X Y) : Move X Y → Bytes
  | .call _ .process =>
    if c.isDown = false ∧ c.transport.connected = true then c.arrival.data else []
  | _ => []

/-- The connection made these frames of these bytes: they are what came behind the
handshake of the peer, and the buffer holds what is left. -/
inductive Intake (c : Connection X Y) (bytes : Bytes) : List Frame → Prop where
  | awaits (hpeer : c.acquaintance = .none) (hbytes : bytes = c.buffer.bytes) :
    Intake c bytes []
  | met {frames : List Frame} (handshake : Handshake) (hpeer : c.acquaintance = .of handshake)
      (hbytes : bytes = handshake.encode ++ (frames.flatMap Frame.encode ++ c.buffer.bytes))
      (hvalid : ∀ frame ∈ frames, frame.IsValid) : Intake c bytes frames

variable {c d : Connection X Y} {bytes : Bytes} {frames : List Frame}

theorem Intake.congr (h : Intake c bytes frames) (hpeer : d.acquaintance = c.acquaintance)
    (hbuffer : d.buffer = c.buffer) : Intake d bytes frames := by
  cases h with
  | awaits hsame hbytes => exact .awaits (hpeer.trans hsame) (hbuffer ▸ hbytes)
  | met handshake hsame hbytes hvalid =>
    exact .met handshake (hpeer.trans hsame) (hbuffer ▸ hbytes) hvalid

theorem Intake.feed (h : Intake c bytes frames) (hpeer : d.acquaintance = c.acquaintance)
    {later : Bytes} (hbuffer : d.buffer = c.buffer.feed later) :
    Intake d (bytes ++ later) frames := by
  have hfed : d.buffer.bytes = c.buffer.bytes ++ later := congrArg Reassembly.bytes hbuffer
  cases h with
  | awaits hsame hbytes => exact .awaits (hpeer.trans hsame) (by rw [hbytes, hfed])
  | met handshake hsame hbytes hvalid =>
    refine .met handshake (hpeer.trans hsame) ?_ hvalid
    rw [hbytes, hfed]
    simp only [List.append_assoc]

variable [Capability X] [SubProtocol Y]

/-- All bytes that the moves of a run read. -/
def bytesRead (c : Connection X Y) (moves : List (Move X Y)) : Bytes := along bytesIn c moves

/-! ## Steps that leave the peer's handshake alone -/

omit [Capability X] [SubProtocol Y] in
theorem acquaintance_eq_of_standing (hstanding : d.state.standing = c.state.standing)
    (hinfoHash : d.remoteInfoHash = c.remoteInfoHash) : d.acquaintance = c.acquaintance := by
  rw [acquaintance, acquaintance, hinfoHash]
  exact congrArg (fun standing : Standing =>
    Acquaintance.mk standing.handshakeReceived c.remoteInfoHash standing.remotePeerId
      standing.remoteReserved) hstanding

theorem acquaintance_teardown (c : Connection X Y) :
    c.teardown.acquaintance = c.acquaintance := by
  rw [teardown]
  split <;> rfl

theorem OwnerStep.acquaintance_eq (h : OwnerStep c d) : d.acquaintance = c.acquaintance := by
  cases h with
  | useTransport transport hwritten => rfl
  | opened hup => rfl
  | addModule m hsent => rfl
  | setPieceCount count => rfl
  | takeEvents events hevents => rfl
  | pick picker => rfl
  | send now message hup =>
    refine acquaintance_eq_of_standing (standing_send c now message) ?_
    rw [Connection.send]
    split <;> rfl
  | sendFromRegistry hsent =>
    obtain ⟨reply, hused⟩ := exists_settle_of_sendFromRegistry? hsent
    rw [hused]
    rfl
  | sendPeerExchange hsent =>
    obtain ⟨reply, hused⟩ := exists_settle_of_sendPeerExchange? hsent
    rw [hused]
    rfl
  | grantAllowedFast hgranted =>
    obtain ⟨reply, hused⟩ := exists_settle_of_grantAllowedFast? hgranted
    rw [hused]
    rfl
  | introduce handshake hup hsent => rfl
  | teardown hup => exact acquaintance_teardown c

theorem acquaintance_greet (c : Connection X Y) (infoHash : Digest) (peerId : PeerId) :
    (c.greet infoHash peerId).acquaintance = c.acquaintance := by
  have hstanding := standing_greet c infoHash peerId
  rw [Standing.greet, Standing.advancePhase_eq] at hstanding
  exact congrArg (fun standing : Standing =>
    Acquaintance.mk standing.handshakeReceived c.remoteInfoHash standing.remotePeerId
      standing.remoteReserved) hstanding

theorem OwnerSteps.acquaintance_eq (h : OwnerSteps c d) : d.acquaintance = c.acquaintance := by
  induction h with
  | refl => rfl
  | tail _ hstep ih => exact hstep.acquaintance_eq.trans ih

theorem OwnerSteps.keeps_buffer (h : OwnerSteps c d) (hup : d.isDown = false) :
    c.isDown = false ∧ d.buffer = c.buffer := by
  induction h with
  | refl => exact ⟨hup, rfl⟩
  | tail _ hstep ih =>
    obtain ⟨hlive, -, hbuffer⟩ := hstep.keeps_buffer hup
    obtain ⟨hfirst, hsame⟩ := ih hlive
    exact ⟨hfirst, hbuffer.trans hsame⟩

/-- A move that is not a round leaves the buffer and the peer's handshake alone. -/
theorem move_keeps_intake {m : Move X Y} (hm : ∀ now, m ≠ .call now .process)
    (hup : (c.move m).isDown = false) :
    c.isDown = false ∧ (c.move m).acquaintance = c.acquaintance ∧
      (c.move m).buffer = c.buffer := by
  rcases move_ownerSteps c hm with hsteps | ⟨infoHash, peerId, hlive, -, hsteps⟩
  · obtain ⟨hlive, hbuffer⟩ := hsteps.keeps_buffer hup
    exact ⟨hlive, hsteps.acquaintance_eq, hbuffer⟩
  · obtain ⟨-, hbuffer⟩ := hsteps.keeps_buffer hup
    exact ⟨hlive, hsteps.acquaintance_eq.trans (acquaintance_greet c infoHash peerId), hbuffer⟩

/-! ## Rounds -/

theorem consumeFrames_keeps (c : Connection X Y) :
    c.consumeFrames.1.buffer = c.buffer.drain.rest ∧
      c.consumeFrames.1.remoteInfoHash = c.remoteInfoHash := by
  have habsorb := dispatchAll_eq_absorb { c with buffer := c.buffer.drain.rest }
    c.buffer.drain.frames
  rw [consumeFrames]
  split
  · next d failure hd =>
    obtain rfl := congrArg Prod.fst (hd.symm.trans habsorb)
    exact ⟨rfl, rfl⟩
  · next d hd =>
    obtain rfl := congrArg Prod.fst (hd.symm.trans habsorb)
    exact ⟨rfl, rfl⟩

theorem consumeFrames_intake (hup : c.isDown = false) {handshake : Handshake}
    (hpeer : c.acquaintance = .of handshake)
    (hbytes : bytes = handshake.encode ++ (frames.flatMap Frame.encode ++ c.buffer.bytes))
    (hvalid : ∀ frame ∈ frames, frame.IsValid) :
    Intake c.consumeFrames.1 bytes (frames ++ c.buffer.drain.frames) := by
  have hreceived : c.state.handshakeReceived = true := congrArg Acquaintance.received hpeer
  obtain ⟨hbuffer, hinfoHash⟩ := consumeFrames_keeps c
  obtain ⟨hdrained, hfits, -⟩ := c.buffer.eq_drain
  have hsame := acquaintance_eq_of_standing (consumeFrames_pollSteps hup hreceived).2 hinfoHash
  refine .met handshake (hsame.trans hpeer) ?_ ?_
  · rw [hbytes, hdrained, hbuffer, List.flatMap_append, List.append_assoc]
  · intro frame hframe
    rcases List.mem_append.mp hframe with hearlier | hlater
    · exact hvalid frame hearlier
    · exact (hfits frame hlater).1

omit [Capability X] [SubProtocol Y] in
theorem acquaintance_acceptHandshake {handshake : Handshake}
    (h : c.acceptHandshake handshake = (d, none)) :
    d.acquaintance = .of handshake ∧ d.buffer = c.buffer := by
  rw [acceptHandshake] at h
  split at h
  · cases h
  · obtain rfl := (Prod.mk.inj h).1
    have hstanding := ConnectionState.standing_advancePhase { c.state with
      remotePeerId := some handshake.peerId
      remoteReserved := some handshake.reserved
      handshakeReceived := true }
    rw [Standing.advancePhase_eq] at hstanding
    refine ⟨?_, rfl⟩
    exact congrArg (fun standing : Standing =>
      Acquaintance.mk standing.handshakeReceived (some handshake.infoHash) standing.remotePeerId
        standing.remoteReserved) hstanding

/-- What is consumed in a round are the frames that are complete. -/
theorem consume_intake (hup : c.isDown = false) (h : Intake c bytes frames)
    (hok : c.consume.2 = none) : Intake c.consume.1 bytes (frames ++ c.listener.frames) := by
  cases h with
  | met handshake hpeer hbytes hvalid =>
    have hreceived : c.state.handshakeReceived = true := congrArg Acquaintance.received hpeer
    have hframes : c.listener.frames = c.buffer.drain.frames := if_pos hreceived
    rw [hframes, consume, if_pos hreceived]
    exact consumeFrames_intake hup hpeer hbytes hvalid
  | awaits hpeer hbytes =>
    have hreceived : ¬ c.state.handshakeReceived = true := by
      have hfalse : c.state.handshakeReceived = false := congrArg Acquaintance.received hpeer
      simp [hfalse]
    have hwaits : ¬ c.listener.session.state.handshakeReceived = true := hreceived
    rw [Listener.frames, if_neg hwaits, List.nil_append]
    rw [consume, if_neg hreceived] at hok ⊢
    split at hok
    · cases hok
    · next htaken =>
      have htaken : c.listener.buffer.takeHandshake = .ok none := htaken
      rw [htaken]
      exact .awaits hpeer hbytes
    · next handshake buffer htaken =>
      have hnow : c.listener.buffer.takeHandshake = .ok (some (handshake, buffer)) := htaken
      rw [hnow]
      dsimp only
      obtain ⟨hfront, -⟩ := Reassembly.takeHandshake_eq_some_iff.mp htaken
      have hlive := acceptHandshake_isDown (c := { c with buffer }) hup handshake
      split at hok
      · cases hok
      · next d hd =>
        rw [hd] at hlive
        obtain ⟨hmet, hbuffer⟩ := acquaintance_acceptHandshake hd
        have hintake : Intake d.consumeFrames.1 bytes ([] ++ d.buffer.drain.frames) :=
          consumeFrames_intake hlive hmet
            (hbytes.trans (hfront.trans (by rw [hbuffer]; rfl))) (List.forall_mem_nil _)
        rw [hbuffer] at hintake
        exact hintake

omit [Capability X] [SubProtocol Y] in
theorem Intake.receive (h : Intake c bytes frames) (now : Nat) :
    Intake (c.keepAlive now).receive.1 (bytes ++ c.arrival.data) frames := by
  refine h.feed ?_ ?_
  all_goals
    rw [keepAlive]
    split <;> rfl

/-- A round after which the connection is up hands on the frames that it completes. -/
theorem process_intake (hc : c.IsOpen) (h : Intake c bytes frames) {now : Nat}
    (hup : (c.process now).1.isDown = false) :
    Intake (c.process now).1 (bytes ++ c.bytesIn (.call now .process))
      (frames ++ c.framesIn (.call now .process)) := by
  have hbytes : c.bytesIn (.call now .process) = c.arrival.data := if_pos ⟨hc.up, hc.connected⟩
  have hframes := hc.framesIn_process hup
  cases hpoll : c.poll now with
  | mk d failure? =>
    cases failure? with
    | some failure =>
      rw [hc.process_of_poll_failure hpoll, isDown_teardown] at hup
      cases hup
    | none =>
      obtain ⟨hfault, hgoes, -⟩ := poll_goesOn hpoll
      have hfed := h.receive now
      have hlive : (c.keepAlive now).receive.1.isDown = false :=
        (isDown_eq_of_standing (standing_keepAlive c now)).trans hc.up
      have htaken : (c.keepAlive now).receive.1.consume.2 = none :=
        (consumed_listens c now).1.trans (Reply.failure?_eq_none_iff.mpr hgoes.result)
      have hlistener : (c.keepAlive now).receive.1.listener = c.listener.feed c.arrival.data := by
        obtain ⟨fed, hreceive, hlistener, -⟩ := exists_receive_keepAlive c now
        rw [hreceive]
        exact hlistener
      have hconsumed : Intake (c.consumed now) (bytes ++ c.arrival.data)
          (frames ++ (c.listener.feed c.arrival.data).frames) :=
        hlistener ▸ consume_intake hlive hfed htaken
      rcases poll_of_taken hfault hgoes.result now with ⟨-, hflushed⟩ | ⟨failure, -, hflushed⟩
      · obtain rfl := (Prod.mk.inj (hpoll.symm.trans hflushed)).1
        rw [hc.process_of_poll hpoll, hbytes, hframes]
        refine hconsumed.congr ?_ ?_
        all_goals
          rw [noteIdle]
          split <;> rfl
      · rw [hpoll] at hflushed
        cases hflushed

/-! ## Runs -/

/-- A round over a transport that is not open does nothing, or takes the connection down. -/
theorem process_of_not_isOpen (h : ¬ c.IsOpen) (now : Nat) :
    (c.process now).1 = c ∨ (c.process now).1 = c.teardown := by
  rw [process]
  split
  · exact .inl rfl
  · next hup =>
    split
    · split
      · exact .inl rfl
      · exact .inr rfl
    · next hconnected => exact absurd ⟨by simpa using hup, by simpa using hconnected⟩ h

theorem move_intake (h : c.isDown = false → Intake c bytes frames) (m : Move X Y)
    (hup : (c.move m).isDown = false) :
    Intake (c.move m) (bytes ++ c.bytesIn m) (frames ++ c.framesIn m) := by
  by_cases hm : ∃ now, m = .call now .process
  · obtain ⟨now, rfl⟩ := hm
    by_cases hopen : c.IsOpen
    · exact process_intake hopen (h hopen.up) hup
    · have hbytes : c.bytesIn (.call now .process) = [] :=
        if_neg fun hboth => hopen ⟨hboth.1, hboth.2⟩
      have hframes : c.framesIn (.call now .process) = [] :=
        if_neg fun hall => hopen ⟨hall.1, hall.2.1⟩
      change (c.process now).1.isDown = false at hup
      change Intake (c.process now).1 _ _
      rw [hbytes, hframes, List.append_nil, List.append_nil]
      rcases process_of_not_isOpen hopen now with hsame | hdown
      · rw [hsame] at hup ⊢
        exact h hup
      · rw [hdown, isDown_teardown] at hup
        cases hup
  · have hm := not_exists.mp hm
    obtain ⟨hlive, hpeer, hbuffer⟩ := move_keeps_intake hm hup
    have hnothing : c.bytesIn m = [] ∧ c.framesIn m = [] := by
      cases m with
      | stir stimulus => exact ⟨rfl, rfl⟩
      | call now call =>
        cases call with
        | process => exact absurd rfl (hm now)
        | _ => exact ⟨rfl, rfl⟩
    rw [hnothing.1, hnothing.2, List.append_nil, List.append_nil]
    exact (h hlive).congr hpeer hbuffer

/-- In every run, what was read and not dropped with the connection is the handshake of
the peer, the frames that were handed on, and what the buffer holds. -/
theorem play_intake (transport : Transport) (config : Config) (now : Nat)
    (moves : List (Move X Y)) :
    let start : Connection X Y := new transport config now
    (start.play moves).isDown = false →
      Intake (start.play moves) (start.bytesRead moves) (start.framesOf moves) := by
  intro start
  induction moves using List.reverseRecOn with
  | nil => exact fun _ => .awaits rfl rfl
  | append_singleton moves m ih =>
    rw [play_concat, bytesRead, along_concat, framesOf_concat]
    exact move_intake ih m

/-! ## What arrives -/

theorem poll_reads (c : Connection X Y) (now : Nat) :
    (c.poll now).1.transport.reads = c.arrival.reads := by
  obtain ⟨fed, hreceive, hlistener, -, htransport⟩ := exists_receive_keepAlive c now
  cases hfault : c.arrival.fault with
  | some failure =>
    rw [poll, hreceive, hfault]
    exact congrArg Transport.reads htransport
  | none =>
    have hconsumed : (c.consumed now).transport.reads = c.arrival.reads :=
      congrArg Transport.reads (consumed_listens c now).2.2.2.2
    cases hresult : (c.listener.feed c.arrival.data).listen.result with
    | error failure =>
      rw [poll_of_refused hfault hresult now]
      exact hconsumed
    | ok =>
      rcases poll_of_taken hfault hresult now with ⟨-, hpoll⟩ | ⟨failure, -, hpoll⟩
      · rw [hpoll, (noteIdle_keeps _ _).2]
        exact hconsumed
      · rw [hpoll]
        exact hconsumed

theorem reads_teardown (c : Connection X Y) :
    c.teardown.transport.reads = c.transport.reads := by
  rw [teardown]
  split <;> rfl

theorem process_reads (c : Connection X Y) (now : Nat) :
    c.bytesIn (.call now .process) ++ Transport.unread (c.process now).1.transport.reads =
      Transport.unread c.transport.reads := by
  by_cases hopen : c.IsOpen
  · have hbytes : c.bytesIn (.call now .process) = c.arrival.data :=
      if_pos ⟨hopen.up, hopen.connected⟩
    have hreads : (c.process now).1.transport.reads = c.arrival.reads := by
      have hpoll := poll_reads c now
      cases hd : c.poll now with
      | mk d failure? =>
        rw [hd] at hpoll
        cases failure? with
        | none =>
          rw [hopen.process_of_poll hd]
          exact hpoll
        | some failure =>
          rw [hopen.process_of_poll_failure hd, reads_teardown]
          exact hpoll
    rw [hbytes, hreads]
    exact Transport.readFrom_conserves _ _ _
  · have hbytes : c.bytesIn (.call now .process) = [] :=
      if_neg fun hboth => hopen ⟨hboth.1, hboth.2⟩
    rw [hbytes, List.nil_append]
    rcases process_of_not_isOpen hopen now with hsame | hdown
    · rw [hsame]
    · rw [hdown, reads_teardown]

theorem HandshakeOutcome.reads_eq (h : HandshakeOutcome c d) :
    d.transport.reads = c.transport.reads := by
  cases h with
  | refused => rfl
  | mismatch hup => exact reads_teardown c
  | introduced infoHash peerId hup hsent => rfl
  | failed infoHash peerId hup hsent => exact reads_teardown (c.introduced infoHash peerId)

omit [Capability X] [SubProtocol Y] in
theorem bytesIn_of_sends (c : Connection X Y) (now : Nat) {call : Call X Y} (h : call.Sends) :
    c.bytesIn (.call now call) = [] := by
  cases call with
  | process => exact h.elim
  | _ => rfl

/-- What a move reads and leaves to be read is what was there and what the move brings. -/
theorem move_reads (c : Connection X Y) (m : Move X Y) :
    c.bytesIn m ++ Transport.unread (c.move m).transport.reads =
      Transport.unread c.transport.reads ++ m.incoming := by
  have hidle : ∀ now (call : Call X Y), c.bytesIn (.call now call) = [] →
      (c.perform now call).1.transport.reads = c.transport.reads →
      c.bytesIn (.call now call) ++ Transport.unread (c.perform now call).1.transport.reads =
        Transport.unread c.transport.reads ++ [] := by
    intro now call hbytes hreads
    rw [hbytes, hreads, List.append_nil, List.nil_append]
  cases m using Move.sendsCases with
  | stir stimulus =>
    cases stimulus with
    | feed answers => exact List.flatMap_append
    | planWrites answers => exact (List.append_nil _).symm
    | failConnect fault => exact (List.append_nil _).symm
    | setConnected connected => exact (List.append_nil _).symm
  | connect now =>
    refine hidle now .connect rfl ?_
    change c.connect.1.transport.reads = _
    rw [connect, Transport.connect]
    split
    · rfl
    · cases c.transport.connects <;> rfl
  | handshake now infoHash peerId =>
    exact hidle now (.handshake infoHash peerId) rfl (handshake_outcome c infoHash peerId).reads_eq
  | process now => exact (process_reads c now).trans (List.append_nil _).symm
  | disconnect now => exact hidle now .disconnect rfl (reads_teardown c)
  | addModule now m =>
    refine hidle now (.addModule m) rfl ?_
    change (c.addModule m).1.transport.reads = _
    rw [addModule]
    split <;> rfl
  | setPieceCount now count => exact hidle now (.setPieceCount count) rfl rfl
  | nextEvent now => exact hidle now .nextEvent rfl rfl
  | drainEvents now => exact hidle now .drainEvents rfl rfl
  | sends now call h =>
    exact hidle now call (bytesIn_of_sends c now h) (congrArg _ (perform_posts c now h).transport)

/-- In every run, what was read and what still waits to be read is all that came in. -/
theorem bytesRead_append_unread (start : Connection X Y) (moves : List (Move X Y)) :
    start.bytesRead moves ++ Transport.unread (start.play moves).transport.reads =
      start.incoming moves := by
  induction moves using List.reverseRecOn with
  | nil => exact (List.append_nil _).symm
  | append_singleton moves m ih =>
    rw [play_concat, bytesRead, along_concat, incoming_concat, ← ih, List.append_assoc,
      move_reads, ← List.append_assoc]
    rfl

end Connection
end PeerLink
