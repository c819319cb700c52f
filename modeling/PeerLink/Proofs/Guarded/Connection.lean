import PeerLink.Proofs.Guarded.Modules
import PeerLink.Proofs.Guarded.Room

/-!
# Rounds that do not stop

A whole round of work, written with guarded operations: what is read is counted, frames are cut
out of the buffer and read, modules answer them, and what they tell is folded into the record.
Where the record has room for all that is there to be read, the round does not stop, and comes to
what `Connection.process` comes to: `process_eq`.  Every run leaves that room, so no peer can stop
a connection with what it sends.
-/

namespace PeerLink
namespace Guarded

open Transport

/-! ## Dispatching -/

/-- Folds the events from a place of the queue on into the record. -/
def observeFrom (c : Connection Empty Empty) (start : Nat) : Option (Connection Empty Empty) :=
  if start ≤ c.outbox.events.length then
    (observeAll c.state (c.outbox.events.drop start)).map fun state => { c with state }
  else none

/-- Folds an event into the record and queues it. -/
def tell (c : Connection Empty Empty) (event : Event) : Option (Connection Empty Empty) := do
  return { c with state := ← observe c.state event, outbox := c.outbox.pushEvent event }

/-- Offers a frame to the modules, and folds the events of one that was taken into the record. -/
def offer (c : Connection Empty Empty) (command : UInt8) (payload : Bytes) :
    Option (Connection Empty Empty × Option Failure) := do
  let reply ← offerAll c.state command payload c.modules
  match reply.result with
  | .error failure => return (c.settle reply, some failure)
  | .ok true => return (← observeFrom (c.settle reply) c.outbox.events.length, none)
  | .ok false => return (c.settle reply, none)

/-- Gives a frame to whom it belongs. -/
def dispatch (c : Connection Empty Empty) :
    Frame → Option (Connection Empty Empty × Option Failure)
  | .keepAlive => do return (← tell c .keepAlive, none)
  | .message command length payload =>
    match (Command.ofByte? command).bind Inbound.flag? with
    | some event => do return (← tell c event, none)
    | none => do
      match ← read command length payload with
      | some (.ok event) =>
        let queued := { c with outbox := c.outbox.pushEvent event }
        return (← observeFrom queued c.outbox.events.length, none)
      | some (.error _) => return (c, some (.malformedPayload (.invalidCommand command)))
      | none => offer c command payload

/-- Dispatches frames in order, up to the first that fails. -/
def dispatchAll (c : Connection Empty Empty) :
    List Frame → Option (Connection Empty Empty × Option Failure)
  | [] => some (c, none)
  | frame :: rest => do
    match ← dispatch c frame with
    | (c, some failure) => return (c, some failure)
    | (c, none) => dispatchAll c rest

variable {c : Connection Empty Empty}

theorem observeFrom_eq (events : List Event) {added : List Event}
    (hqueue : c.outbox.events = events ++ added)
    (hroom : c.state.HasRoomFor (Event.downloadsAll added))
    (hsized : ∀ event ∈ added, event.IsSized) :
    observeFrom c events.length = some { c with state := c.state.observeAll added } := by
  have hplace : events.length ≤ c.outbox.events.length := by
    rw [hqueue, List.length_append]
    exact Nat.le_add_right _ _
  have hadded : c.outbox.events.drop events.length = added := by
    rw [hqueue, List.drop_left]
  rw [observeFrom, if_pos hplace, hadded, observeAll_eq hroom hsized]
  rfl

theorem tell_eq {event : Event} (h : c.state.HasRoomFor event.downloads) :
    tell c event = some (c.tell event) := by
  rw [tell, observe_eq h]
  rfl

theorem offer_eq (command : UInt8) {payload : Bytes}
    (h : c.state.HasRoomFor payload.length) :
    offer c command payload = some (c.offer command payload) := by
  have hlength : payload.length < 2 ^ 64 := Nat.lt_of_le_of_lt (Nat.le_add_left _ _) h.room
  have hevents := Capability.isOfModule_of_offer c.state command payload c.modules
  rw [offer, Connection.offer, offerAll_eq hlength]
  generalize Capability.offer c.state command payload c.modules = reply at hevents ⊢
  simp only [Option.bind_eq_bind, Option.bind_some]
  rcases reply.result with failure | (_ | _)
  · rfl
  · rfl
  · have hroom : c.state.HasRoomFor (Event.downloadsAll reply.output.events) := by
      rw [Event.downloadsAll_of_isOfModule hevents]
      exact h.mono (Nat.zero_le _)
    have hobserved := @observeFrom_eq (c.settle reply) c.outbox.events reply.output.events rfl hroom
      fun event hevent => (hevents event hevent).isSized
    simp only [hobserved, Option.bind_some]
    rfl

theorem dispatch_eq {frame : Frame} (h : c.state.HasRoomFor frame.payload.length) :
    dispatch c frame = some (c.dispatch frame) := by
  cases frame with
  | keepAlive =>
    rw [dispatch, tell_eq h]
    rfl
  | message command length payload =>
    rw [dispatch, Connection.dispatch, read_eq]
    cases hflag : (Command.ofByte? command).bind Inbound.flag? with
    | some event =>
      obtain ⟨known, -, hknown⟩ := Option.bind_eq_some_iff.mp hflag
      have hroom : c.state.HasRoomFor event.downloads := by
        rw [(Inbound.downloads_of_flag? hknown).2]
        exact h.mono (Nat.zero_le _)
      simp only [tell_eq hroom]
      rfl
    | none =>
      simp only [Option.bind_eq_bind, Option.bind_some]
      cases hread : Inbound.read? command length payload with
      | none => exact offer_eq command h
      | some read =>
        cases read with
        | error failure => rfl
        | ok event =>
          have hdownloads := Inbound.downloads_le_of_read? hread
          have hroom : c.state.HasRoomFor (Event.downloadsAll [event]) := by
            rw [Event.downloadsAll, List.map_singleton, List.sum_singleton]
            exact h.mono hdownloads
          have hobserved := @observeFrom_eq { c with outbox := c.outbox.pushEvent event }
            c.outbox.events [event] rfl hroom
            (List.forall_mem_singleton.mpr (Inbound.isSized_of_read? hread))
          simp only [hobserved, Option.bind_some]
          rfl

/-- Frames are dispatched where there is room for all of their bytes. -/
theorem dispatchAll_eq {frames : List Frame}
    (h : c.state.HasRoomFor (frames.flatMap Frame.encode).length) :
    dispatchAll c frames = some (c.dispatchAll frames) := by
  induction frames generalizing c with
  | nil => rfl
  | cons frame rest ih =>
    have hpayload := frame.length_payload_le
    rw [List.flatMap_cons, List.length_append] at h
    have hroom := h.mono (Nat.add_le_add_right hpayload _)
    have hlater := Connection.hasRoomFor_dispatch hroom
    rw [dispatchAll, Connection.dispatchAll, dispatch_eq (hroom.mono (Nat.le_add_right _ _))]
    simp only [Option.bind_eq_bind, Option.bind_some]
    cases hd : c.dispatch frame with
    | mk d failure? =>
      rw [hd] at hlater
      cases failure? with
      | some failure => rfl
      | none => exact ih hlater

/-! ## Consuming -/

/-- Dispatches all frames that are complete. -/
def consumeFrames (c : Connection Empty Empty) :
    Option (Connection Empty Empty × Option Failure) := do
  let drained ← drain (c.buffer.bytes.length + 1) c.buffer
  match ← dispatchAll { c with buffer := drained.rest } drained.frames with
  | (c, some failure) => return (c, some failure)
  | (c, none) => return (c, drained.fault)

/-- Takes the peer's handshake if it is still to come, and all frames behind it. -/
def consume (c : Connection Empty Empty) : Option (Connection Empty Empty × Option Failure) := do
  if c.state.handshakeReceived then consumeFrames c
  else match ← takeHandshake c.buffer with
    | .error failure => return (c, some failure)
    | .ok none => return (c, none)
    | .ok (some (handshake, buffer)) =>
      match { c with buffer }.acceptHandshake handshake with
      | (c, some failure) => return (c, some failure)
      | (c, none) => consumeFrames c

variable {more : Nat}

theorem consumeFrames_eq (h : c.HasRoomFor more) :
    consumeFrames c = some c.consumeFrames := by
  have hbytes := congrArg List.length c.buffer.eq_drain.1
  rw [List.length_append] at hbytes
  have hroom : c.state.HasRoomFor (c.buffer.drain.frames.flatMap Frame.encode).length :=
    h.mono (by omega)
  have hall := @dispatchAll_eq { c with buffer := c.buffer.drain.rest } c.buffer.drain.frames hroom
  rw [consumeFrames, drain_eq (Nat.lt_succ_self _), Connection.consumeFrames]
  simp only [Option.bind_eq_bind, Option.bind_some, hall]
  rcases Connection.dispatchAll { c with buffer := c.buffer.drain.rest } c.buffer.drain.frames with
    ⟨d, _ | failure⟩ <;> rfl

theorem consume_eq (h : c.HasRoomFor more) : consume c = some c.consume := by
  rw [consume, Connection.consume, takeHandshake_eq]
  by_cases hreceived : c.state.handshakeReceived = true
  · rw [if_pos hreceived, if_pos hreceived]
    exact consumeFrames_eq h
  · rw [if_neg hreceived, if_neg hreceived]
    simp only [Option.bind_eq_bind, Option.bind_some]
    cases htaken : c.buffer.takeHandshake with
    | error failure => rfl
    | ok taken? =>
      cases taken? with
      | none => rfl
      | some taken =>
        obtain ⟨handshake, buffer⟩ := taken
        have haccepted := Connection.hasRoomFor_acceptHandshake h htaken
        dsimp only
        cases hd : Connection.acceptHandshake { c with buffer } handshake with
        | mk d failure? =>
          rw [hd] at haccepted
          cases failure? with
          | some failure => rfl
          | none => exact consumeFrames_eq haccepted

/-! ## Reading and writing -/

/-- The capacity of a buffer that holds `held` bytes and is made large enough for the bytes
that are missing to `limit`. -/
def reserve (limit held total : Nat) : Option Nat := do add held (← sub limit total)

/-- Reads as long as there are answers and fewer than `limit` bytes came in, of which there are
`total` so far.  The buffer, which holds `held` bytes, is made large enough first. -/
def readFrom (limit held total : Nat) (reads : List ReadAnswer) : Option Arrival := do
  if limit ≤ total then return ⟨reads, [], none⟩
  let _capacity ← reserve limit held total
  match reads with
  | [] => return ⟨[], [], none⟩
  | .data [] :: rest => return ⟨rest, [], some .connectionClosed⟩
  | .data chunk :: rest =>
    let later ← readFrom limit (← add held chunk.length) (← add total chunk.length) rest
    return { later with data := chunk ++ later.data }
  | .fault .wouldBlock :: rest => return ⟨rest, [], none⟩
  | .fault .interrupted :: rest => readFrom limit held total rest
  | .fault fault :: rest => return ⟨rest, [], some (.io fault)⟩

/-- Reads what the transport has, and counts it. -/
def receive (c : Connection Empty Empty) :
    Option (Connection Empty Empty × Nat × Option Failure) := do
  let arrival ← readFrom c.config.readChunkSize c.buffer.bytes.length 0 c.transport.reads
  return ({ c with
    transport := { c.transport with reads := arrival.reads }
    buffer := c.buffer.feed arrival.data },
    arrival.data.length, arrival.fault)

/-- Offers the bytes of one frame until all are accepted, the channel is full, or it fails. -/
def writeFrame (frame : Bytes) : List WriteAnswer → Option Progress
  | [] =>
    some (if frame.isEmpty then ⟨[], [], [frame], some .connectionClosed⟩
      else ⟨[], frame, [], none⟩)
  | .fault .wouldBlock :: rest => some ⟨rest, [], [frame], none⟩
  | .fault .interrupted :: rest => writeFrame frame rest
  | .fault fault :: rest => some ⟨rest, [], [frame], some (.io fault)⟩
  | .accept count :: rest => do
    if min count frame.length = 0 then return ⟨rest, [], [frame], some .connectionClosed⟩
    if frame.length ≤ count then return ⟨rest, frame, [], none⟩
    let later ← writeFrame (← advance count frame) rest
    return { later with accepted := frame.take count ++ later.accepted }

/-- Offers frames in order, as far as the channel accepts them. -/
def writeAll (writes : List WriteAnswer) : List Bytes → Option Progress
  | [] => some ⟨writes, [], [], none⟩
  | frame :: rest => do
    let first ← writeFrame frame writes
    if first.pending.isEmpty then
      let later ← writeAll first.writes rest
      return { later with accepted := first.accepted ++ later.accepted }
    else return { first with pending := first.pending ++ rest }

/-- Writes what is queued, as far as the transport accepts it. -/
def flush (c : Connection Empty Empty) : Option (Connection Empty Empty × Option Failure) := do
  let progress ← writeAll c.transport.writes c.outbox.pending
  return ({ c with
    transport := { c.transport with
      writes := progress.writes
      written := c.transport.written ++ progress.accepted }
    outbox := { c.outbox with pending := progress.pending } },
    progress.fault)

theorem reserve_eq {limit held total : Nat} (hfew : ¬ limit ≤ total)
    (h : held + limit < 2 ^ 64) : reserve limit held total = some (held + (limit - total)) := by
  rw [reserve, sub_eq (Nat.le_of_not_le hfew)]
  exact add_eq (by omega)

/-- Reading does not stop where all that is there can be counted, and the room for it. -/
theorem readFrom_eq {limit held total : Nat} {reads : List ReadAnswer} (htotal : total ≤ held)
    (h : held + ((unread reads).length + limit) < 2 ^ 64) :
    readFrom limit held total reads = some (Transport.readFrom limit total reads) := by
  induction reads generalizing held total with
  | nil =>
    rw [readFrom.eq_def, Transport.readFrom.eq_def]
    split
    · rfl
    · next hfew =>
      rw [reserve_eq hfew (by omega)]
      rfl
  | cons answer rest ih =>
    rw [readFrom.eq_def, Transport.readFrom.eq_def]
    split
    · rfl
    · next hfew =>
      have hlength : (unread (answer :: rest)).length =
          answer.bytes.length + (unread rest).length := by
        rw [unread, List.flatMap_cons, List.length_append]
        rfl
      rw [hlength] at h
      rw [reserve_eq hfew (by omega)]
      simp only [Option.bind_eq_bind, Option.bind_some]
      cases answer with
      | data chunk =>
        have hbytes : (ReadAnswer.data chunk).bytes.length = chunk.length := rfl
        rw [hbytes] at h
        have hheld : add held chunk.length = some (held + chunk.length) := add_eq (by omega)
        have hcount : add total chunk.length = some (total + chunk.length) := add_eq (by omega)
        have hlater := @ih (held + chunk.length) (total + chunk.length) (by omega) (by omega)
        cases chunk with
        | nil => rfl
        | cons byte more =>
          dsimp only
          rw [hheld, hcount, Option.bind_some, Option.bind_some, hlater]
          rfl
      | fault fault =>
        cases fault with
        | interrupted => exact ih htotal (by omega)
        | _ => rfl

theorem writeFrame_eq (frame : Bytes) (writes : List WriteAnswer) :
    writeFrame frame writes = some (Transport.writeFrame frame writes) := by
  fun_induction Transport.writeFrame frame writes with
  | case1 frame hempty => simp [writeFrame, hempty]
  | case2 frame hfull => simp [writeFrame, hfull]
  | case3 frame rest => rfl
  | case4 frame rest ih => exact ih
  | case5 frame fault rest hblock hinterrupt => cases fault <;> first | rfl | contradiction
  | case6 frame count rest hnothing => simp [writeFrame, hnothing]
  | case7 frame count rest hsome hall =>
    rw [writeFrame, if_neg hsome, if_pos hall]
    rfl
  | case8 frame count rest hsome hlong later ih =>
    have hrest : advance count frame = some (frame.drop count) := advance_eq (by omega)
    simp only [writeFrame, hsome, hlong, if_false, hrest, Option.bind_eq_bind, Option.bind_some, ih]
    rfl

theorem writeAll_eq (writes : List WriteAnswer) (frames : List Bytes) :
    writeAll writes frames = some (Transport.writeAll writes frames) := by
  induction frames generalizing writes with
  | nil => rfl
  | cons frame rest ih =>
    rw [writeAll, Transport.writeAll, writeFrame_eq]
    simp only [Option.bind_eq_bind, Option.bind_some, ih]
    split <;> rfl

theorem receive_eq (h : c.HasRoomFor ((unread c.transport.reads).length + c.config.readChunkSize)) :
    receive c = some c.receive := by
  have hroom : c.buffer.bytes.length +
      ((unread c.transport.reads).length + c.config.readChunkSize) < 2 ^ 64 :=
    Nat.lt_of_le_of_lt (Nat.le_add_left _ _) h.room
  rw [receive, readFrom_eq (Nat.zero_le _) hroom]
  rfl

theorem flush_eq (c : Connection Empty Empty) : flush c = some c.flush := by
  rw [flush, writeAll_eq]
  rfl

/-! ## Rounds -/

/-- One round over an open transport. -/
def poll (c : Connection Empty Empty) (now : Nat) :
    Option (Connection Empty Empty × Option Failure) := do
  match ← receive (c.keepAlive now) with
  | (c, _, some failure) => return (c, some failure)
  | (c, received, none) =>
    match ← consume c with
    | (c, some failure) => return (c, some failure)
    | (c, none) =>
      match ← flush c with
      | (c, some failure) => return (c, some failure)
      | (c, none) => return (c.noteIdle received, none)

/-- One round of work. -/
def process (c : Connection Empty Empty) (now : Nat) : Option (Connection Empty Empty × Bool) :=
  if c.isDown then some (c, false)
  else if !c.transport.connected then
    some (if c.state.phase = .connecting then (c, true) else (c.teardown, false))
  else do
    match ← poll c now with
    | (c, none) => return (c, true)
    | (c, some _) => return (c.teardown, false)

theorem poll_eq (h : c.HasRoomFor ((unread c.transport.reads).length + c.config.readChunkSize))
    (now : Nat) : poll c now = some (c.poll now) := by
  have hkept : (c.keepAlive now).transport = c.transport ∧
      (c.keepAlive now).config = c.config := by
    rw [Connection.keepAlive]
    split <;> exact ⟨rfl, rfl⟩
  have hreceive : receive (c.keepAlive now) = some (c.keepAlive now).receive := by
    apply receive_eq
    rw [hkept.1, hkept.2]
    exact (Connection.sparesRoom_keepAlive c now).hasRoomFor h
  have hread : c.arrival.data.length + (unread c.arrival.reads).length =
      (unread c.transport.reads).length := by
    rw [← List.length_append]
    exact congrArg List.length (readFrom_conserves _ _ _)
  have hfed : c.HasRoomFor (c.arrival.data.length +
      ((unread c.arrival.reads).length + c.config.readChunkSize)) := by
    rw [← Nat.add_assoc, hread]
    exact h
  have hreceived := Connection.hasRoomFor_receive hfed now
  rw [poll, Connection.poll, hreceive]
  simp only [Option.bind_eq_bind, Option.bind_some]
  rcases hd : (c.keepAlive now).receive with ⟨d, received, _ | failure⟩
  · rw [hd] at hreceived
    simp only [consume_eq hreceived, Option.bind_some]
    rcases d.consume with ⟨e, _ | failure⟩
    · simp only [flush_eq, Option.bind_some]
      rcases e.flush with ⟨f, _ | failure⟩ <;> rfl
    · rfl
  · rfl

/-- Where the record has room for all that is there to be read, a round does not stop. -/
theorem process_eq
    (h : c.HasRoomFor ((unread c.transport.reads).length + c.config.readChunkSize)) (now : Nat) :
    process c now = some (c.process now) := by
  rw [process, Connection.process]
  split
  · rfl
  · split
    · split <;> rfl
    · rw [poll_eq h]
      simp only [Option.bind_eq_bind, Option.bind_some]
      rcases c.poll now with ⟨d, _ | failure⟩ <;> rfl

/-! ## Runs -/

/-- The connection after a move, of which a round is guarded. -/
def move (c : Connection Empty Empty) : Move Empty Empty → Option (Connection Empty Empty)
  | .call now .process => (process c now).map Prod.fst
  | m => some (c.move m)

/-- The connection after some moves, all of whose rounds are guarded. -/
def play (c : Connection Empty Empty) (moves : List (Move Empty Empty)) :
    Option (Connection Empty Empty) := moves.foldlM move c

theorem move_eq (h : c.HasRoomFor ((unread c.transport.reads).length + c.config.readChunkSize))
    (m : Move Empty Empty) : move c m = some (c.move m) := by
  cases m with
  | stir stimulus => rfl
  | call now call =>
    cases call with
    | process => exact congrArg (Option.map Prod.fst) (process_eq h now)
    | _ => rfl

/-- What a run leaves room for is all that is there to be read. -/
theorem hasRoomFor_unread (transport : Transport) (config : Config) (now : Nat)
    {moves : List (Move Empty Empty)} (hcounts : Connection.CountsPieces moves) :
    let start : Connection Empty Empty := .new transport config now
    (start.incoming moves).length + config.readChunkSize < 2 ^ 64 →
      (start.play moves).HasRoomFor ((unread (start.play moves).transport.reads).length +
        (start.play moves).config.readChunkSize) := by
  intro start hbytes
  have hread := congrArg List.length (start.bytesRead_append_unread moves)
  rw [List.length_append] at hread
  have hconfig : (start.play moves).config = config := start.config_play moves
  rw [hconfig]
  apply Connection.play_hasRoomFor transport config now hcounts
  rw [← Nat.add_assoc, hread]
  exact hbytes

/-- No peer stops a program.  Whatever bytes arrive, in whatever chunks, and whatever the owner
does with the modules of this library, no round of a run reaches an operation that stops; all come
to what the running definitions come to.  All bytes that ever arrive and the room for one more
chunk are to be counted by a word of 64 bits. -/
theorem play_never_stops (transport : Transport) (config : Config) (now : Nat)
    {moves : List (Move Empty Empty)} (hcounts : Connection.CountsPieces moves) :
    let start : Connection Empty Empty := .new transport config now
    (start.incoming moves).length + config.readChunkSize < 2 ^ 64 →
      play start moves = some (start.play moves) := by
  intro start hbytes
  induction moves using List.reverseRecOn with
  | nil => rfl
  | append_singleton moves m ih =>
    have hearlier : Connection.CountsPieces moves := fun time count hmem =>
      hcounts time count (List.mem_append_left _ hmem)
    have hfewer : (start.incoming moves).length + config.readChunkSize < 2 ^ 64 := by
      rw [Connection.incoming_concat, List.length_append] at hbytes
      omega
    have hplayed := ih hearlier hfewer
    have hmove : move (start.play moves) m = some ((start.play moves).move m) :=
      move_eq (hasRoomFor_unread transport config now hearlier hfewer) m
    rw [play] at hplayed
    rw [play, List.foldlM_append, hplayed, Connection.play_concat]
    simp [hmove]

/-- The moves of a connection that serves two bytes of metadata to a peer that means harm.  The
peer breaks its handshake in two, announces a piece out of range, all pieces and its ids, asks for
a piece of metadata that is not there, and ends with a dictionary that is cut off. -/
def servesHarmfulPeer : List (Move Empty Empty) :=
  let stream :=
    Handshake.encode ⟨.none, Sha1.digest [97], ⟨Vector.replicate 20 8⟩⟩ ++
    (Message.havePiece 4294967295).encode ++ Message.haveAll.encode ++
    (Message.extended 0 (Bytes.ofText "d1:md11:ut_metadatai3eee")).encode ++
    (Message.extended 1 (MetadataMessage.request 4294967295).encode).encode ++
    (Message.extended 2 (Bytes.ofText "d5:added")).encode
  [.call 0 (.addModule (.fast .empty)),
    .call 0 (.addModule (.registry
      ⟨[⟨"ut_metadata", .metadata (.serving [97, 98])⟩, ⟨"ut_pex", .peerExchange .new⟩], [], none,
        none, none⟩)),
    .stir (.feed [.data (stream.take 30), .data (stream.drop 30)]),
    .call 1 (.setPieceCount 10), .call 2 .process]

/-- The connection goes down, but the program does not stop. -/
theorem play_never_stops_of_harmfulPeer :
    let start : Connection Empty Empty := .new (.new true) .standard 0
    play start servesHarmfulPeer = some (start.play servesHarmfulPeer) ∧
      (start.play servesHarmfulPeer).isDown = true := by
  intro start
  have hcounts : Connection.CountsPieces servesHarmfulPeer := by
    intro now count hmem
    obtain ⟨rfl, rfl⟩ : now = 1 ∧ count = 10 := by simpa [servesHarmfulPeer] using hmem
    rw [IsCountable, Bitfield.byteCount]
    decide
  have hbytes : (start.incoming servesHarmfulPeer).length + Config.standard.readChunkSize <
      2 ^ 64 := by
    decide +kernel
  have hdown : (start.play servesHarmfulPeer).isDown = true := by decide +kernel
  exact ⟨play_never_stops (.new true) .standard 0 hcounts hbytes, hdown⟩

end Guarded
end PeerLink
