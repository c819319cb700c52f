import PeerLink.Proofs.Connection.Intake
import PeerLink.Proofs.Guarded.Pieces

/-!
# Room for the bytes that are still to come

The bytes that a connection has read were counted as downloaded, or wait in its buffer, or said
something else.  As long as fewer bytes arrive than a word of 64 bits can count, the record has
therefore room for all that waits and for what is still to come.  Each move passes on the room
that it does not use, and so `play_hasRoomFor` finds it at the end of every run.  The only other
limit is that the owner gives a number of pieces whose bits can be counted.
-/

namespace PeerLink

/-! ## What frames download -/

theorem Event.IsOfModule.isSized {event : Event} (h : event.IsOfModule) : event.IsSized := by
  cases event with
  | bitfield field => exact h.elim
  | _ => trivial

/-- Only blocks are counted, and no module tells of a block. -/
theorem Event.IsOfModule.downloads {event : Event} (h : event.IsOfModule) :
    event.downloads = 0 := by
  cases event with
  | piece block => exact h.elim
  | _ => rfl

theorem Event.downloadsAll_of_isOfModule {events : List Event}
    (h : ∀ event ∈ events, event.IsOfModule) : downloadsAll events = 0 := by
  induction events with
  | nil => rfl
  | cons event rest ih =>
    obtain ⟨hevent, hrest⟩ := List.forall_mem_cons.mp h
    rw [downloadsAll, List.map_cons, List.sum_cons, hevent.downloads, Nat.zero_add]
    exact ih hrest

/-- The modules of this library raise no other events when a frame is offered to them. -/
theorem Capability.isOfModule_of_offer (state : ConnectionState) (command : UInt8)
    (payload : Bytes) (modules : List (AnyModule Empty Empty)) :
    ∀ event ∈ (offer state command payload modules).output.events, event.IsOfModule :=
  (AnyModule.queues (Output.admits_raises fun _ h => h) queues_empty SubProtocol.queues_empty).offer
    (Output.admitsMessages_raises _) state command payload modules

theorem Inbound.downloads_of_flag? {command : Command} {event : Event}
    (h : flag? command = some event) : event.IsSized ∧ event.downloads = 0 := by
  cases command with
  | choke | unchoke | interested | notInterested =>
    obtain rfl := Option.some.inj h
    exact ⟨trivial, rfl⟩
  | _ => cases h

theorem Block.length_data_le {payload : Bytes} {block : Block}
    (h : decode? payload = some block) : block.data.length ≤ payload.length := by
  obtain ⟨⟨index, rest⟩, hindex, h⟩ := Option.bind_eq_some_iff.mp h
  obtain ⟨⟨start, data⟩, hstart, h⟩ := Option.bind_eq_some_iff.mp h
  obtain rfl := Option.some.inj h
  rw [Bytes.eq_of_takeUInt32? hindex, Bytes.eq_of_takeUInt32? hstart]
  simp only [List.length_append]
  omega

/-- A block is a part of the payload that it is read from. -/
theorem Inbound.downloads_le_of_read? {id : UInt8} {length : UInt32} {payload : Bytes}
    {event : Event} (h : read? id length payload = some (.ok event)) :
    event.downloads ≤ payload.length := by
  cases says_of_read? h with
  | piece hblock =>
    rw [block] at hblock
    cases hdecoded : Block.decode? payload with
    | none =>
      rw [hdecoded] at hblock
      cases hblock
    | some decoded =>
      rw [hdecoded] at hblock
      obtain rfl := Except.ok.inj hblock
      exact Block.length_data_le hdecoded
  | _ => exact Nat.zero_le _

/-- Bytes that the payload of a frame takes are bytes of the frame. -/
theorem Frame.length_payload_le (frame : Frame) :
    frame.payload.length ≤ frame.encode.length := by
  cases frame with
  | keepAlive => exact Nat.zero_le _
  | message id length payload =>
    simp only [Frame.payload, encode, List.length_append, List.length_cons]
    omega

namespace ConnectionState

variable {state : ConnectionState} {events : List Event} {count : Nat}

theorem HasRoomFor.observeAll (h : state.HasRoomFor (Event.downloadsAll events + count))
    (hevents : ∀ event ∈ events, event.IsSized) : (state.observeAll events).HasRoomFor count := by
  induction events generalizing state with
  | nil => exact h.mono (Nat.le_add_left _ _)
  | cons event rest ih =>
    obtain ⟨hevent, hrest⟩ := List.forall_mem_cons.mp hevents
    rw [Event.downloadsAll, List.map_cons, List.sum_cons, Nat.add_assoc] at h
    exact ih (h.observe hevent) hrest

theorem exists_advancePhase_eq (state : ConnectionState) :
    ∃ phase, state.advancePhase = { state with phase } := by
  rw [advancePhase]
  split
  · exact ⟨_, rfl⟩
  · split
    · exact ⟨_, rfl⟩
    · exact ⟨_, rfl⟩

end ConnectionState

namespace Connection

variable {X Y : Type}

/-- The record has room for what waits in the buffer, and for so many bytes more. -/
def HasRoomFor (c : Connection X Y) (more : Nat) : Prop :=
  c.state.HasRoomFor (c.buffer.bytes.length + more)

/-- From `c` to `d`, no room is used. -/
structure SparesRoom (c d : Connection X Y) : Prop where
  pieces : d.state.pieces = c.state.pieces
  downloaded : d.state.bytesDownloaded = c.state.bytesDownloaded
  buffer : d.buffer.bytes.length ≤ c.buffer.bytes.length

variable {c d e : Connection X Y} {more : Nat}

theorem SparesRoom.refl (c : Connection X Y) : c.SparesRoom c := ⟨rfl, rfl, Nat.le_refl _⟩

theorem SparesRoom.trans (h : c.SparesRoom d) (h' : d.SparesRoom e) : c.SparesRoom e :=
  ⟨h'.pieces.trans h.pieces, h'.downloaded.trans h.downloaded, Nat.le_trans h'.buffer h.buffer⟩

theorem SparesRoom.hasRoomFor (h : c.SparesRoom d) (hroom : c.HasRoomFor more) :
    d.HasRoomFor more := by
  obtain ⟨hpieces, hdownloaded, hbuffer⟩ := h
  constructor
  · rw [hpieces]
    exact hroom.sized
  · rw [hpieces]
    exact hroom.countable
  · rw [hdownloaded]
    exact (hroom.mono (Nat.add_le_add_right hbuffer more)).room

/-! ## What uses no room -/

theorem sparesRoom_advancePhase {state : ConnectionState} (hstate : d.state = state.advancePhase)
    (hpieces : state.pieces = c.state.pieces)
    (hdownloaded : state.bytesDownloaded = c.state.bytesDownloaded)
    (hbuffer : d.buffer = c.buffer) : c.SparesRoom d := by
  obtain ⟨phase, hphase⟩ := state.exists_advancePhase_eq
  rw [hphase] at hstate
  refine ⟨?_, ?_, ?_⟩
  · rw [hstate]
    exact hpieces
  · rw [hstate]
    exact hdownloaded
  · rw [hbuffer]

theorem sparesRoom_send (c : Connection X Y) (now : Nat) (message : Message) :
    c.SparesRoom (c.send now message).1 := by
  rw [send]
  split
  · exact .refl c
  · cases message <;> exact ⟨rfl, rfl, Nat.le_refl _⟩

theorem sparesRoom_settle {α : Type} (c : Connection X Y)
    (reply : Reply (List (AnyModule X Y)) α) : c.SparesRoom (c.settle reply) :=
  ⟨rfl, rfl, Nat.le_refl _⟩

theorem SendStep.sparesRoom (h : SendStep c d) : c.SparesRoom d := by
  cases h with
  | pick picker => exact ⟨rfl, rfl, Nat.le_refl _⟩
  | send now message hup => exact sparesRoom_send c now message
  | sendFromRegistry hsent =>
    obtain ⟨reply, hused⟩ := exists_settle_of_sendFromRegistry? hsent
    rw [hused]
    exact sparesRoom_settle c reply
  | sendPeerExchange hsent =>
    obtain ⟨reply, hused⟩ := exists_settle_of_sendPeerExchange? hsent
    rw [hused]
    exact sparesRoom_settle c reply
  | grantAllowedFast hgranted =>
    obtain ⟨reply, hused⟩ := exists_settle_of_grantAllowedFast? hgranted
    rw [hused]
    exact sparesRoom_settle c reply

theorem SendSteps.sparesRoom (h : SendSteps c d) : c.SparesRoom d := by
  induction h with
  | refl => exact .refl c
  | tail _ hstep ih => exact ih.trans hstep.sparesRoom

theorem sparesRoom_connect (c : Connection X Y) : c.SparesRoom c.connect.1 := by
  rw [connect]
  split
  · exact .refl c
  · split <;> exact ⟨rfl, rfl, Nat.le_refl _⟩

theorem sparesRoom_keepAlive (c : Connection X Y) (now : Nat) :
    c.SparesRoom (c.keepAlive now) := by
  rw [keepAlive]
  split
  · exact ⟨rfl, rfl, Nat.le_refl _⟩
  · exact .refl c

theorem sparesRoom_noteIdle (c : Connection X Y) (received : Nat) :
    c.SparesRoom (c.noteIdle received) := by
  rw [noteIdle]
  split
  · exact ⟨rfl, rfl, Nat.le_refl _⟩
  · exact .refl c

theorem sparesRoom_acceptHandshake (c : Connection X Y) (handshake : Handshake) :
    c.SparesRoom (c.acceptHandshake handshake).1 := by
  rw [acceptHandshake]
  split
  · exact .refl c
  · exact sparesRoom_advancePhase rfl rfl rfl rfl

section Moves

variable [Capability X] [SubProtocol Y]

theorem sparesRoom_teardown (c : Connection X Y) : c.SparesRoom c.teardown := by
  rw [teardown]
  split
  · exact .refl c
  · exact ⟨rfl, rfl, Nat.zero_le _⟩

theorem sparesRoom_introduced (c : Connection X Y) (infoHash : Digest) (peerId : PeerId) :
    c.SparesRoom (c.introduced infoHash peerId) := by
  have hgreeted : c.SparesRoom (c.greet infoHash peerId) :=
    sparesRoom_advancePhase rfl rfl rfl rfl
  exact hgreeted.trans (sparesRoom_settle _ _)

theorem HandshakeOutcome.sparesRoom (h : HandshakeOutcome c d) : c.SparesRoom d := by
  cases h with
  | refused => exact .refl c
  | mismatch hup => exact sparesRoom_teardown c
  | introduced infoHash peerId hup hsent => exact sparesRoom_introduced c infoHash peerId
  | failed infoHash peerId hup hsent =>
    exact (sparesRoom_introduced c infoHash peerId).trans (sparesRoom_teardown _)

/-- Only rounds use room, and only the number of pieces can limit it. -/
theorem move_sparesRoom {m : Move X Y} (hround : ∀ now, m ≠ .call now .process)
    (hcount : ∀ now count, m ≠ .call now (.setPieceCount count)) : c.SparesRoom (c.move m) := by
  cases m using Move.sendsCases with
  | stir stimulus => exact ⟨rfl, rfl, Nat.le_refl _⟩
  | connect now => exact sparesRoom_connect c
  | handshake now infoHash peerId => exact (handshake_outcome c infoHash peerId).sparesRoom
  | process now => exact absurd rfl (hround now)
  | disconnect now => exact sparesRoom_teardown c
  | addModule now m =>
    change c.SparesRoom (c.addModule m).1
    rw [addModule]
    split
    · exact .refl c
    · exact ⟨rfl, rfl, Nat.le_refl _⟩
  | setPieceCount now count => exact absurd rfl (hcount now count)
  | nextEvent now => exact ⟨rfl, rfl, Nat.le_refl _⟩
  | drainEvents now => exact ⟨rfl, rfl, Nat.le_refl _⟩
  | sends now call h => exact (perform_sendSteps c now call h).sparesRoom

end Moves

theorem HasRoomFor.setPieceCount (h : c.HasRoomFor more) {count : Nat}
    (hcount : Guarded.IsCountable count) : (c.setPieceCount count).HasRoomFor more where
  sized := RemotePieces.isSized_setPieceCount c.state.pieces count
  countable := by
    intro known hknown
    obtain rfl := Option.some.inj
      ((RemotePieces.pieceCount_setPieceCount c.state.pieces count).symm.trans hknown)
    exact hcount
  room := h.room

end Connection

/-! ## Rounds -/

namespace Connection

variable {c : Connection Empty Empty} {more : Nat}

/-- What a frame does to the record is what its events do, and they download no more than its
payload. -/
theorem exists_observeAll_of_dispatch (c : Connection Empty Empty) (frame : Frame) :
    ∃ events, (c.dispatch frame).1.state = c.state.observeAll events ∧
      (∀ event ∈ events, event.IsSized) ∧
      Event.downloadsAll events ≤ frame.payload.length := by
  have hnothing : ∀ payload : Bytes, ∃ events, c.state = c.state.observeAll events ∧
      (∀ event ∈ events, event.IsSized) ∧ Event.downloadsAll events ≤ payload.length :=
    fun payload => ⟨[], rfl, List.forall_mem_nil _, Nat.zero_le _⟩
  cases frame with
  | keepAlive => exact ⟨[.keepAlive], rfl, List.forall_mem_singleton.mpr trivial, Nat.zero_le _⟩
  | message command length payload =>
    rw [dispatch]
    split
    · next event hevent =>
      obtain ⟨known, -, hflag⟩ := Option.bind_eq_some_iff.mp hevent
      obtain ⟨hsized, hdownloads⟩ := Inbound.downloads_of_flag? hflag
      refine ⟨[event], rfl, List.forall_mem_singleton.mpr hsized, ?_⟩
      simp [Event.downloadsAll, hdownloads]
    · split
      · next event hevent =>
        refine ⟨[event], rfl, List.forall_mem_singleton.mpr (Inbound.isSized_of_read? hevent), ?_⟩
        simpa [Event.downloadsAll, Frame.payload] using Inbound.downloads_le_of_read? hevent
      · exact hnothing payload
      · have hevents := Capability.isOfModule_of_offer c.state command payload c.modules
        rw [offer]
        split
        · exact hnothing payload
        · refine ⟨_, rfl, fun event hevent => (hevents event hevent).isSized, ?_⟩
          rw [Event.downloadsAll_of_isOfModule hevents]
          exact Nat.zero_le _
        · exact hnothing payload

theorem hasRoomFor_dispatch {frame : Frame}
    (h : c.state.HasRoomFor (frame.payload.length + more)) :
    (c.dispatch frame).1.state.HasRoomFor more := by
  obtain ⟨events, hstate, hsized, hdownloads⟩ := exists_observeAll_of_dispatch c frame
  rw [hstate]
  exact (h.mono (Nat.add_le_add_right hdownloads more)).observeAll hsized

theorem hasRoomFor_dispatchAll {frames : List Frame}
    (h : c.state.HasRoomFor ((frames.flatMap Frame.encode).length + more)) :
    (c.dispatchAll frames).1.state.HasRoomFor more := by
  induction frames generalizing c with
  | nil => exact h.mono (Nat.le_add_left _ _)
  | cons frame rest ih =>
    have hpayload := frame.length_payload_le
    rw [List.flatMap_cons, List.length_append, Nat.add_assoc] at h
    have hfirst := hasRoomFor_dispatch (h.mono (Nat.add_le_add_right hpayload _))
    rw [dispatchAll]
    split
    · next d failure hd =>
      rw [hd] at hfirst
      exact hfirst.mono (Nat.le_add_left _ _)
    · next d hd =>
      rw [hd] at hfirst
      exact ih hfirst

theorem HasRoomFor.consumeFrames (h : c.HasRoomFor more) : c.consumeFrames.1.HasRoomFor more := by
  have hbytes := congrArg List.length c.buffer.eq_drain.1
  rw [List.length_append] at hbytes
  have hall : ({ c with buffer := c.buffer.drain.rest } : Connection Empty Empty).state.HasRoomFor
      ((c.buffer.drain.frames.flatMap Frame.encode).length +
        (c.buffer.drain.rest.bytes.length + more)) := by
    rw [← Nat.add_assoc, ← hbytes]
    exact h
  have hdispatched := hasRoomFor_dispatchAll hall
  rw [HasRoomFor, (consumeFrames_keeps c).1, Connection.consumeFrames]
  split
  · next d failure hd =>
    rw [hd] at hdispatched
    exact hdispatched
  · next d hd =>
    rw [hd] at hdispatched
    exact hdispatched

/-- What a handshake takes off the buffer makes room. -/
theorem hasRoomFor_acceptHandshake (h : c.HasRoomFor more) {handshake : Handshake}
    {buffer : Reassembly} (htaken : c.buffer.takeHandshake = .ok (some (handshake, buffer))) :
    (acceptHandshake { c with buffer } handshake).1.HasRoomFor more := by
  have hbytes := congrArg List.length (Reassembly.takeHandshake_eq_some_iff.mp htaken).1
  rw [List.length_append] at hbytes
  have hrebuffered : c.SparesRoom { c with buffer } := ⟨rfl, rfl, hbytes ▸ Nat.le_add_left _ _⟩
  exact (hrebuffered.trans (sparesRoom_acceptHandshake _ handshake)).hasRoomFor h

theorem HasRoomFor.consume (h : c.HasRoomFor more) : c.consume.1.HasRoomFor more := by
  rw [Connection.consume]
  split
  · exact h.consumeFrames
  · split
    · exact h
    · exact h
    · next handshake buffer htaken =>
      have haccepted := hasRoomFor_acceptHandshake h htaken
      split
      · next d failure hd =>
        rw [hd] at haccepted
        exact haccepted
      · next d hd =>
        rw [hd] at haccepted
        exact haccepted.consumeFrames

theorem hasRoomFor_receive (h : c.HasRoomFor (c.arrival.data.length + more)) (now : Nat) :
    (c.keepAlive now).receive.1.HasRoomFor more := by
  obtain ⟨fed, hreceive, hlistener, -, -⟩ := exists_receive_keepAlive c now
  have hstate : fed.state = c.state := congrArg (·.session.state) hlistener
  have hbuffer : fed.buffer = c.buffer.feed c.arrival.data := congrArg Listener.buffer hlistener
  rw [hreceive, HasRoomFor, hstate, hbuffer, Reassembly.feed, List.length_append, Nat.add_assoc]
  exact h

theorem hasRoomFor_poll (h : c.HasRoomFor (c.arrival.data.length + more)) (now : Nat) :
    (c.poll now).1.HasRoomFor more := by
  have hreceived := hasRoomFor_receive h now
  rw [poll]
  split
  · next d count failure hd =>
    rw [hd] at hreceived
    exact hreceived
  · next d count hd =>
    rw [hd] at hreceived
    have hconsumed := hreceived.consume
    split
    · next e failure he =>
      rw [he] at hconsumed
      exact hconsumed
    · next e he =>
      rw [he] at hconsumed
      have hflushed : e.flush.1.HasRoomFor more := hconsumed
      split
      · next f failure hf =>
        rw [hf] at hflushed
        exact hflushed
      · next f hf =>
        rw [hf] at hflushed
        exact (sparesRoom_noteIdle f count).hasRoomFor hflushed

theorem hasRoomFor_process {now : Nat}
    (h : c.HasRoomFor ((c.bytesIn (.call now .process)).length + more)) :
    (c.process now).1.HasRoomFor more := by
  by_cases hopen : c.IsOpen
  · have hbytes : c.bytesIn (.call now .process) = c.arrival.data :=
      if_pos ⟨hopen.up, hopen.connected⟩
    rw [hbytes] at h
    have hpoll := hasRoomFor_poll h now
    cases hd : c.poll now with
    | mk d failure? =>
      rw [hd] at hpoll
      cases failure? with
      | none =>
        rw [hopen.process_of_poll hd]
        exact hpoll
      | some failure =>
        rw [hopen.process_of_poll_failure hd]
        exact (sparesRoom_teardown d).hasRoomFor hpoll
  · have hroom : c.HasRoomFor more := h.mono (Nat.add_le_add_left (Nat.le_add_left _ _) _)
    rcases process_of_not_isOpen hopen now with hsame | hdown
    · rw [hsame]
      exact hroom
    · rw [hdown]
      exact (sparesRoom_teardown c).hasRoomFor hroom

/-! ## Runs -/

section Config

variable {X Y : Type} [Capability X] [SubProtocol Y] {c d : Connection X Y}

theorem config_dispatch (c : Connection X Y) (frame : Frame) :
    (c.dispatch frame).1.config = c.config := by
  cases frame with
  | keepAlive => rfl
  | message command length payload =>
    rw [dispatch]
    split
    · rfl
    · split
      · rfl
      · rfl
      · rw [offer]
        split <;> rfl

theorem config_teardown (c : Connection X Y) : c.teardown.config = c.config := by
  rw [teardown]
  split <;> rfl

theorem OwnerStep.config_eq (h : OwnerStep c d) : d.config = c.config := by
  cases h with
  | send now message hup =>
    rw [Connection.send]
    split <;> rfl
  | sendFromRegistry hsent =>
    obtain ⟨reply, hused⟩ := exists_settle_of_sendFromRegistry? hsent
    rw [hused]
    rfl
  | sendPeerExchange hsent =>
    obtain ⟨reply, hused⟩ := exists_settle_of_sendPeerExchange? hsent
    rw [hused]
    rfl
  | grantAllowedFast hgranted =>
    obtain ⟨reply, hused⟩ := exists_settle_of_grantAllowedFast? hgranted
    rw [hused]
    rfl
  | teardown hup => exact config_teardown c
  | _ => rfl

theorem PollStep.config_eq (h : PollStep c d) : d.config = c.config := by
  cases h with
  | keepAlive now hup =>
    rw [Connection.keepAlive]
    split <;> rfl
  | acceptHandshake handshake hup hreceived =>
    rw [Connection.acceptHandshake]
    split <;> rfl
  | dispatch frame hup hreceived => exact config_dispatch c frame
  | noteIdle received hup =>
    rw [Connection.noteIdle]
    split <;> rfl
  | teardown hup => exact config_teardown c
  | _ => rfl

theorem Steps.config_eq (h : Steps c d) : d.config = c.config := by
  induction h with
  | refl => rfl
  | tail _ hstep ih =>
    rcases hstep with howner | hpoll
    · exact howner.config_eq.trans ih
    · exact hpoll.config_eq.trans ih

/-- The settings are those that the connection was made with. -/
theorem config_play (c : Connection X Y) (moves : List (Move X Y)) :
    (c.play moves).config = c.config := by
  induction moves using List.reverseRecOn with
  | nil => rfl
  | append_singleton moves m ih =>
    rw [play_concat]
    rcases move_steps (c.play moves) m with hsteps | ⟨infoHash, peerId, -, -, hsteps⟩
    · exact hsteps.config_eq.trans ih
    · exact hsteps.config_eq.trans ih

end Config

/-- All numbers of pieces that the owner gives are countable. -/
def CountsPieces (moves : List (Move Empty Empty)) : Prop :=
  ∀ now count, .call now (.setPieceCount count) ∈ moves → Guarded.IsCountable count

theorem move_hasRoomFor {m : Move Empty Empty}
    (hcount : ∀ now count, m = .call now (.setPieceCount count) → Guarded.IsCountable count)
    (h : c.HasRoomFor ((c.bytesIn m).length + more)) : (c.move m).HasRoomFor more := by
  by_cases hround : ∃ now, m = .call now .process
  · obtain ⟨now, rfl⟩ := hround
    exact hasRoomFor_process h
  · have hroom : c.HasRoomFor more := h.mono (Nat.add_le_add_left (Nat.le_add_left _ _) _)
    by_cases hcounts : ∃ now count, m = .call now (.setPieceCount count)
    · obtain ⟨now, count, rfl⟩ := hcounts
      exact hroom.setPieceCount (hcount now count rfl)
    · refine (move_sparesRoom (not_exists.mp hround) ?_).hasRoomFor hroom
      rintro now count rfl
      exact hcounts ⟨now, count, rfl⟩

/-- At the end of every run there is room for what still comes, as long as all bytes can be
counted together. -/
theorem play_hasRoomFor (transport : Transport) (config : Config) (now : Nat)
    {moves : List (Move Empty Empty)} (hcounts : CountsPieces moves) :
    let start : Connection Empty Empty := new transport config now
    (start.bytesRead moves).length + more < 2 ^ 64 → (start.play moves).HasRoomFor more := by
  intro start
  induction moves using List.reverseRecOn generalizing more with
  | nil =>
    intro hmore
    refine ⟨RemotePieces.isSized_unknown, nofun, ?_⟩
    rw [bytesRead, along_nil, List.length_nil] at hmore
    change 0 + (0 + more) < 2 ^ 64
    omega
  | append_singleton moves m ih =>
    intro hmore
    rw [bytesRead, along_concat, List.length_append, Nat.add_assoc] at hmore
    rw [play_concat]
    refine move_hasRoomFor ?_ (ih ?_ hmore)
    · rintro time count rfl
      exact hcounts time count (List.mem_append_right moves (List.mem_singleton_self _))
    · intro time count hmem
      exact hcounts time count (List.mem_append_left _ hmem)

end Connection
end PeerLink
