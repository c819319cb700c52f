import PeerLink.Proofs.Connection.Close
import PeerLink.Proofs.Module.InTurn
import PeerLink.Proofs.Noting
import PeerLink.Proofs.Wire.Layout
import PeerLink.Scripted.Module

/-!
# Who owns a frame

A frame that arrives is told to the owner of the connection, or refused, or it goes to the
modules that claim its command, of which at most one takes it.  What it is depends on the
command, the length of the payload and the answers of the modules, and no frame is two of
these things.  `Meets` says for each of them what is queued, what is noted in the record and
that all else stays.  A round of work treats its frames in this way one after another, up to
the first that takes the connection down.
-/

namespace PeerLink
namespace Connection

variable {X Y : Type} [Capability X] [SubProtocol Y]

/-! ## What can become of a frame -/

/-- What becomes of a frame. -/
inductive Fate where
  /-- It is told as this event. -/
  | told (event : Event)
  /-- Its payload is too short, and the connection goes down. -/
  | malformed
  /-- A module took it. -/
  | taken
  /-- A module failed, and the connection goes down. -/
  | failed (failure : Failure)
  /-- No module took it. -/
  | ignored

/-- What a module makes of a frame that is offered to it, or that passes it by. -/
def answer (c : Connection X Y) (id : UInt8) (payload : Bytes) (m : AnyModule X Y) :
    Reply (AnyModule X Y) Bool :=
  Capability.answer c.state id payload m

/-- The events that modules queue for a frame. -/
def raised (c : Connection X Y) (id : UInt8) (payload : Bytes) (asked : List (AnyModule X Y)) :
    List Event :=
  asked.flatMap fun m => (c.answer id payload m).output.events

/-- The connection when modules have seen a frame: they have new states, and what they
wanted queued is queued.  The ones behind them were not asked. -/
def shown (c : Connection X Y) (id : UInt8) (payload : Bytes)
    (asked behind : List (AnyModule X Y)) : Connection X Y :=
  { c with
    modules := asked.map (fun m => (c.answer id payload m).next) ++ behind
    outbox :=
      { pending := c.outbox.pending ++
          (asked.flatMap fun m => (c.answer id payload m).output.frames).map Frame.encode
        events := c.outbox.events ++ c.raised id payload asked
        notes := c.outbox.notes ++
          asked.flatMap fun m => (c.answer id payload m).output.notes } }

/-- The connection is taken down.  This is told behind all other events, every module is
ended, what waits to be read or written is dropped, and of the record the phase alone
changes.  A connection that is down stays as it is. -/
inductive Closes (c : Connection X Y) : Connection X Y → Prop
  | again (hdown : c.isDown = true) : Closes c c
  | first (hup : c.isDown = false) :
    Closes c { c with
      transport := c.transport.close
      modules := c.modules.map fun m => (Capability.onTeardown m).1
      state := { c.state with phase := .disconnected }
      buffer := c.buffer.clear
      outbox :=
        { pending := []
          events := c.outbox.events ++ [.droppedConnection]
          notes := c.outbox.notes ++ c.modules.flatMap fun m => (Capability.onTeardown m).2 } }

/-- The frame has this fate, and leads from `c` to the last connection.  An event that is told
goes behind the others and is noted in the record, and nothing else changes.  So it is with
the events of the modules when one of them takes the frame. -/
inductive Meets (c : Connection X Y) : Frame → Fate → Connection X Y → Prop
  | told {frame : Frame} {event : Event} {state : ConnectionState} (htells : frame.Tells event)
      (hnotes : c.state.Notes event state) :
    Meets c frame (.told event)
      { c with
        state := state
        outbox := { c.outbox with events := c.outbox.events ++ [event] } }
  | malformed {frame : Frame} {d : Connection X Y} (hshort : frame.IsShort)
      (hcloses : Closes c d) : Meets c frame .malformed d
  | taken {id : UInt8} {length : UInt32} {payload : Bytes} {front behind : List (AnyModule X Y)}
      {m : AnyModule X Y} {state : ConnectionState} (hid : 10 ≤ id)
      (hmodules : c.modules = front ++ m :: behind)
      (hfront : ∀ n ∈ front, (c.answer id payload n).result = .ok false)
      (hm : (c.answer id payload m).result = .ok true)
      (hnotes : c.state.NotesAll (c.raised id payload (front ++ [m])) state) :
    Meets c (.message id length payload) .taken
      { c.shown id payload (front ++ [m]) behind with state := state }
  | failed {id : UInt8} {length : UInt32} {payload : Bytes} {front behind : List (AnyModule X Y)}
      {m : AnyModule X Y} {failure : Failure} {d : Connection X Y} (hid : 10 ≤ id)
      (hmodules : c.modules = front ++ m :: behind)
      (hfront : ∀ n ∈ front, (c.answer id payload n).result = .ok false)
      (hm : (c.answer id payload m).result = .error failure)
      (hcloses : Closes (c.shown id payload (front ++ [m]) behind) d) :
    Meets c (.message id length payload) (.failed failure) d
  | ignored {id : UInt8} {length : UInt32} {payload : Bytes} (hid : 10 ≤ id)
      (hall : ∀ m ∈ c.modules, (c.answer id payload m).result = .ok false) :
    Meets c (.message id length payload) .ignored (c.shown id payload c.modules [])

/-- The connection behind what was dispatched.  A failure takes it down. -/
def closedOnFailure : Connection X Y × Option Failure → Connection X Y
  | (c, none) => c
  | (c, some _) => c.teardown

/-- The connection behind a frame. -/
def handle (c : Connection X Y) (frame : Frame) : Connection X Y :=
  closedOnFailure (c.dispatch frame)

/-- The connection behind frames, up to the first that takes it down. -/
def handleAll (c : Connection X Y) : List Frame → Connection X Y
  | [] => c
  | frame :: rest =>
    if (c.handle frame).isDown then c.handle frame else (c.handle frame).handleAll rest

/-- The bytes that a round has read, cut into frames. -/
def cut (c : Connection X Y) (now : Nat) : Reassembly.Drained :=
  (c.keepAlive now).receive.1.buffer.drain

/-- The connection when a round has cut what it read into frames. -/
def beforeFrames (c : Connection X Y) (now : Nat) : Connection X Y :=
  { (c.keepAlive now).receive.1 with buffer := (c.cut now).rest }

/-- What a round does behind its frames: it refuses a frame that is too large, and writes
what is queued. -/
def finish (c : Connection X Y) (refused : Option Failure) (received : Nat) :
    Connection X Y × Bool :=
  if c.isDown then (c, false)
  else if refused.isSome then (c.teardown, false)
  else match c.flush with
    | (d, some _) => (d.teardown, false)
    | (d, none) => (d.noteIdle received, true)

/-! ## Dispatching -/

variable {c d : Connection X Y} {frame : Frame} {fate : Fate}

theorem closes_iff : Closes c d ↔ d = c.teardown := by
  constructor
  · rintro (hdown | hup)
    · rw [teardown, if_pos hdown]
    · rw [teardown, if_neg (ne_true_of_eq_false hup), Capability.teardownAll_eq]
  · rintro rfl
    by_cases hdown : c.isDown = true
    · rw [teardown, if_pos hdown]
      exact .again hdown
    · rw [teardown, if_neg hdown, Capability.teardownAll_eq]
      exact .first (by simpa using hdown)

theorem dispatch_of_tells {event : Event} (h : frame.Tells event) (hvalid : frame.IsValid)
    (c : Connection X Y) : c.dispatch frame = (c.tell event, none) := by
  cases frame with
  | keepAlive =>
    cases h
    rfl
  | message id length payload =>
    rw [dispatch]
    rcases Inbound.flag_or_read_of_tells h hvalid with hflag | ⟨hflag, hread⟩
    · rw [hflag]
    · rw [hflag, hread]

theorem dispatch_of_isShort (h : frame.IsShort) :
    ∃ failure, ∀ c : Connection X Y, c.dispatch frame = (c, some failure) := by
  cases frame with
  | keepAlive => cases h
  | message id length payload =>
    obtain ⟨hflag, failure, hread⟩ := Inbound.read?_of_isShort h
    refine ⟨.malformedPayload (.invalidCommand id), ?_⟩
    intro c
    rw [dispatch, hflag, hread]

theorem dispatch_of_ge {id : UInt8} (h : 10 ≤ id) (length : UInt32) (payload : Bytes)
    (c : Connection X Y) : c.dispatch (.message id length payload) = c.offer id payload := by
  obtain ⟨hflag, hread⟩ := Inbound.read?_of_ge h length payload
  rw [dispatch, hflag, hread]

section Offer

variable {id : UInt8} {payload : Bytes} {front behind : List (AnyModule X Y)} {m : AnyModule X Y}

/-- What the modules make of a frame together. -/
def offered (c : Connection X Y) (id : UInt8) (payload : Bytes) :
    Reply (List (AnyModule X Y)) Bool :=
  Capability.offer c.state id payload c.modules

theorem offered_of_stopped (hmodules : c.modules = front ++ m :: behind)
    (hfront : ∀ n ∈ front, (c.answer id payload n).result = .ok false)
    (hm : (c.answer id payload m).result ≠ .ok false) :
    (c.offered id payload).result = (c.answer id payload m).result ∧
      c.settle (c.offered id payload) = c.shown id payload (front ++ [m]) behind ∧
      (c.offered id payload).output.events = c.raised id payload (front ++ [m]) := by
  have hoffered : c.offered id payload =
      ⟨(c.answer id payload m).result,
        (front ++ [m]).map (fun n => (c.answer id payload n).next) ++ behind,
        .join ((front ++ [m]).map fun n => (c.answer id payload n).output)⟩ := by
    rw [offered, hmodules]
    exact Capability.offer_of_stopped hfront hm
  rw [hoffered, Output.join_map]
  exact ⟨rfl, rfl, rfl⟩

theorem offered_of_passed (hall : ∀ m ∈ c.modules, (c.answer id payload m).result = .ok false) :
    (c.offered id payload).result = .ok false ∧
      c.settle (c.offered id payload) = c.shown id payload c.modules [] := by
  have hoffered : c.offered id payload = .ok (c.modules.map fun m => (c.answer id payload m).next)
      false (.join (c.modules.map fun m => (c.answer id payload m).output)) :=
    Capability.offer_of_passed hall
  rw [hoffered, Output.join_map, shown, List.append_nil]
  exact ⟨rfl, rfl⟩

theorem offer_eq (c : Connection X Y) (id : UInt8) (payload : Bytes) :
    c.offer id payload =
      match (c.offered id payload).result with
      | .error failure => (c.settle (c.offered id payload), some failure)
      | .ok true =>
        ({ c.settle (c.offered id payload) with
          state := c.state.observeAll (c.offered id payload).output.events }, none)
      | .ok false => (c.settle (c.offered id payload), none) := rfl

end Offer

/-! ## One fate for every frame -/

/-- The fate of a frame that modules are asked about. -/
def Fate.ofResult : Except Failure Bool → Fate
  | .ok true => .taken
  | .ok false => .ignored
  | .error failure => .failed failure

theorem Meets.cases (h : Meets c frame fate d) :
    (∃ event, frame.Tells event ∧ fate = .told event) ∨ frame.IsShort ∧ fate = .malformed ∨
      ∃ id length payload, frame = .message id length payload ∧ 10 ≤ id ∧
        fate = .ofResult (c.offered id payload).result := by
  cases h with
  | told htells hnotes => exact .inl ⟨_, htells, rfl⟩
  | malformed hshort hcloses => exact .inr (.inl ⟨hshort, rfl⟩)
  | taken hid hmodules hfront hm hnotes =>
    obtain ⟨hresult, -⟩ := offered_of_stopped hmodules hfront (by simp [hm])
    exact .inr (.inr ⟨_, _, _, rfl, hid, by rw [hresult, hm]; rfl⟩)
  | failed hid hmodules hfront hm hcloses =>
    obtain ⟨hresult, -⟩ := offered_of_stopped hmodules hfront (by simp [hm])
    exact .inr (.inr ⟨_, _, _, rfl, hid, by rw [hresult, hm]; rfl⟩)
  | ignored hid hall =>
    obtain ⟨hresult, -⟩ := offered_of_passed hall
    exact .inr (.inr ⟨_, _, _, rfl, hid, by rw [hresult]; rfl⟩)

theorem Meets.unique {other : Fate} {e : Connection X Y} (h : Meets c frame fate d)
    (h' : Meets c frame other e) : fate = other := by
  rcases h.cases with ⟨event, htells, rfl⟩ | ⟨hshort, rfl⟩ | ⟨id, length, payload, rfl, hid, rfl⟩
  · rcases h'.cases with ⟨event', htells', rfl⟩ | ⟨hshort, -⟩ | ⟨id, length, payload, rfl, hid, -⟩
    · rw [htells.unique htells']
    · exact absurd hshort htells.not_isShort
    · exact absurd hid (UInt8.not_le.mpr (htells.id_lt rfl))
  · rcases h'.cases with ⟨event, htells, -⟩ | ⟨-, rfl⟩ | ⟨id, length, payload, rfl, hid, -⟩
    · exact absurd hshort htells.not_isShort
    · rfl
    · exact absurd hid (UInt8.not_le.mpr (hshort.id_lt rfl))
  · rcases h'.cases with ⟨event, htells, -⟩ | ⟨hshort, -⟩ | ⟨id, length, payload, hframe, -, rfl⟩
    · exact absurd hid (UInt8.not_le.mpr (htells.id_lt rfl))
    · exact absurd hid (UInt8.not_le.mpr (hshort.id_lt rfl))
    · obtain ⟨rfl, rfl, rfl⟩ := Frame.message.inj hframe
      rfl

theorem Meets.eq_handle (h : Meets c frame fate d) (hvalid : frame.IsValid) :
    d = c.handle frame := by
  rw [handle]
  cases h with
  | told htells hnotes =>
    rw [dispatch_of_tells htells hvalid, ConnectionState.notes_iff.mp hnotes]
    rfl
  | malformed hshort hcloses =>
    obtain ⟨failure, hdispatch⟩ := dispatch_of_isShort (X := X) (Y := Y) hshort
    rw [hdispatch]
    exact closes_iff.mp hcloses
  | taken hid hmodules hfront hm hnotes =>
    obtain ⟨hresult, hsettle, hraised⟩ := offered_of_stopped hmodules hfront (by simp [hm])
    rw [dispatch_of_ge hid, offer_eq, hresult, hm, hsettle, hraised,
      ConnectionState.notesAll_iff.mp hnotes]
    rfl
  | failed hid hmodules hfront hm hcloses =>
    obtain ⟨hresult, hsettle, -⟩ := offered_of_stopped hmodules hfront (by simp [hm])
    rw [dispatch_of_ge hid, offer_eq, hresult, hm, hsettle]
    exact closes_iff.mp hcloses
  | ignored hid hall =>
    obtain ⟨hresult, hsettle⟩ := offered_of_passed hall
    rw [dispatch_of_ge hid, offer_eq, hresult, hsettle]
    rfl

theorem exists_meets (c : Connection X Y) (frame : Frame) : ∃ fate d, Meets c frame fate d := by
  rcases frame.tells_or_isShort_or_other with
    ⟨event, htells⟩ | hshort | ⟨id, length, payload, rfl, hid⟩
  · exact ⟨_, _, .told htells (ConnectionState.notes_observe c.state event)⟩
  · exact ⟨_, _, .malformed hshort (closes_iff.mpr rfl)⟩
  · let passes (m : AnyModule X Y) : Prop := (c.answer id payload m).result = .ok false
    rcases forall_or_exists_first passes c.modules with
      hall | ⟨front, m, behind, hmodules, hfront, hm⟩
    · exact ⟨_, _, .ignored hid hall⟩
    · cases hresult : (c.answer id payload m).result with
      | error failure => exact ⟨_, _, .failed hid hmodules hfront hresult (closes_iff.mpr rfl)⟩
      | ok took =>
        cases took with
        | true =>
          have hnotes := ConnectionState.notesAll_iff.mpr
            (rfl : _ = c.state.observeAll (c.raised id payload (front ++ [m])))
          exact ⟨_, _, .taken hid hmodules hfront hresult hnotes⟩
        | false => exact absurd hresult hm

/-! ## Noting the events of a frame -/

/-- From `c` to `d`, events are queued, and each of these very events is noted in the record
once. -/
def NotesOnce (c d : Connection X Y) : Prop :=
  ∃ events, d.outbox.events = c.outbox.events ++ events ∧ c.state.NotesAll events d.state

/-- The connection or a module owns the frame. -/
def Fate.IsOwned : Fate → Prop
  | told _ | taken => True
  | _ => False

theorem Meets.notesOnce (h : Meets c frame fate d) (howned : fate.IsOwned) : NotesOnce c d := by
  cases h with
  | told htells hnotes => exact ⟨[_], rfl, .cons hnotes (.nil _)⟩
  | taken hid hmodules hfront hm hnotes => exact ⟨_, rfl, hnotes⟩
  | malformed | failed | ignored => exact howned.elim

/-! ## Frames that no module sees -/

/-- The modules have no part in what becomes of the frame: with others in their place, the
same becomes of it. -/
def IgnoresModules (c : Connection X Y) (frame : Frame) : Prop :=
  ∀ modules : List (AnyModule X Y),
    ({ c with modules := modules } : Connection X Y).dispatch frame =
      ({ (c.dispatch frame).1 with modules := modules }, (c.dispatch frame).2)

theorem ignoresModules_of_lt (c : Connection X Y)
    (h : ∀ id, frame.id? = some id → id < 10) (hvalid : frame.IsValid) :
    c.IgnoresModules frame := by
  intro modules
  rcases frame.tells_or_isShort_or_other with
    ⟨event, htells⟩ | hshort | ⟨id, length, payload, rfl, hid⟩
  · rw [dispatch_of_tells htells hvalid, dispatch_of_tells htells hvalid]
    rfl
  · obtain ⟨failure, hdispatch⟩ := dispatch_of_isShort (X := X) (Y := Y) hshort
    rw [hdispatch, hdispatch]
  · exact absurd hid (UInt8.not_le.mpr (h id rfl))

/-! ## A round -/

theorem isDown_dispatch (c : Connection X Y) (frame : Frame) :
    (c.dispatch frame).1.isDown = c.isDown :=
  isDown_eq_of_standing (standing_dispatch c frame)

theorem handleAll_eq (hup : c.isDown = false) (frames : List Frame) :
    c.handleAll frames = closedOnFailure (c.dispatchAll frames) := by
  induction frames generalizing c with
  | nil => rfl
  | cons frame rest ih =>
    have hlive := (isDown_dispatch c frame).trans hup
    rw [handleAll, handle, dispatchAll]
    cases hd : c.dispatch frame with
    | mk d failure? =>
      rw [hd] at hlive
      cases failure? with
      | none =>
        have hstill : ¬ (closedOnFailure (d, none)).isDown = true := ne_true_of_eq_false hlive
        rw [if_neg hstill]
        exact ih hlive
      | some failure => exact if_pos (isDown_teardown d)

/-- A round of a connection that heard the peer's handshake gives its frames their fates, one
after another, and then writes. -/
theorem process_eq_finish (hc : c.IsListening) (hfault : c.arrival.fault = none) (now : Nat) :
    c.process now =
      ((c.beforeFrames now).handleAll (c.cut now).frames).finish (c.cut now).fault
        c.arrival.data.length := by
  have hopen : ¬ c.isDown = true := ne_true_of_eq_false hc.up
  have hconnected : ¬ (!c.transport.connected) = true := by simp [hc.connected]
  obtain ⟨fed, hreceive, hlistener, -⟩ := exists_receive_keepAlive c now
  have hreceived : fed.state.handshakeReceived = true :=
    (congrArg (·.session.state.handshakeReceived) hlistener).trans hc.received
  have hup : fed.isDown = false :=
    (congrArg (·.session.state.phase == .disconnected) hlistener).trans hc.up
  rw [process, if_neg hopen, if_neg hconnected, poll, beforeFrames, cut, hreceive, hfault]
  dsimp only
  rw [consume, if_pos hreceived, consumeFrames]
  generalize fed.buffer.drain = drained
  have hlive : { fed with buffer := drained.rest }.isDown = false := hup
  have hstanding := (dispatchAll_pollSteps hlive hreceived drained.frames).2
  have hstands := (isDown_eq_of_standing hstanding).trans hlive
  rw [handleAll_eq hlive]
  generalize ({ fed with buffer := drained.rest } : Connection X Y).dispatchAll drained.frames =
    dispatched at hstands ⊢
  rcases dispatched with ⟨d, _ | failure⟩
  · have hstill : ¬ (closedOnFailure (d, none)).isDown = true := ne_true_of_eq_false hstands
    rw [finish, if_neg hstill]
    cases drained.fault with
    | some failure => rfl
    | none =>
      have hfits : ¬ (none : Option Failure).isSome = true := Bool.false_ne_true
      rw [closedOnFailure, if_neg hfits]
      dsimp only
      rcases d.flush with ⟨e, _ | failure⟩
      · rfl
      · rfl
  · exact (if_pos (isDown_teardown d)).symm

/-! ## One owner for every frame -/

/-- The frame has this fate and no other. -/
structure HasOneFate (c : Connection X Y) (frame : Frame) (fate : Fate) : Prop where
  meets : Meets c frame fate (c.handle frame)
  unique : ∀ other d, Meets c frame other d → other = fate ∧ d = c.handle frame
  notesOnce : fate.IsOwned → NotesOnce c (c.handle frame)
  ignoresModules : (∀ id, frame.id? = some id → id < 10) → c.IgnoresModules frame

theorem exists_hasOneFate (c : Connection X Y) (hvalid : frame.IsValid) :
    ∃ fate, HasOneFate c frame fate := by
  obtain ⟨fate, d, hmeets⟩ := exists_meets c frame
  obtain rfl := hmeets.eq_handle hvalid
  refine ⟨fate, hmeets, ?_, hmeets.notesOnce, ?_⟩
  · intro other d hother
    exact ⟨hother.unique hmeets, hother.eq_handle hvalid⟩
  · intro hbase
    exact ignoresModules_of_lt c hbase hvalid

omit [Capability X] [SubProtocol Y] in
theorem isValid_of_mem_cut (c : Connection X Y) (now : Nat) :
    ∀ frame ∈ (c.cut now).frames, frame.IsValid := by
  obtain ⟨-, hfits, -⟩ := (c.keepAlive now).receive.1.buffer.eq_drain
  intro frame hframe
  exact (hfits frame hframe).1

/-- Every frame has exactly one owner or none: it is told, it takes the connection down, a
module takes it or fails, or it is ignored.  A round of an established connection does
nothing else with the frames that it completes. -/
theorem frames_have_one_owner (c : Connection X Y) :
    (∀ frame : Frame, frame.IsValid → ∃ fate, HasOneFate c frame fate) ∧
      (c.IsListening → c.arrival.fault = none → ∀ now,
        (∀ frame ∈ (c.cut now).frames, frame.IsValid) ∧
          c.process now =
            ((c.beforeFrames now).handleAll (c.cut now).frames).finish (c.cut now).fault
              c.arrival.data.length) := by
  refine ⟨fun frame hvalid => exists_hasOneFate c hvalid, ?_⟩
  intro hc hfault now
  exact ⟨isValid_of_mem_cut c now, process_eq_finish hc hfault now⟩

/-- A module that passes all `haveAll` frames on, with an event. -/
def watcher : Scripted.Module := .script ⟨"watcher", .none, [14]⟩ [] [.emit .haveNone, .pass]

/-- A module that takes all `haveAll` frames.  It claims pieces too, which it never sees. -/
def taker : Scripted.Module := .script ⟨"taker", .none, [4, 14]⟩ [] [.emit .haveAll]

/-- A connection with two modules that is established, and then gets these bytes. -/
def watchedWith (bytes : Bytes) : Connection Scripted.Module Empty :=
  (new (.new true) .standard 0).play
    [.call 0 (.addModule (.custom watcher)), .call 0 (.addModule (.custom taker)),
      .call 0 (.handshake "0000000000000000000000000000000000000000" (List.replicate 20 7)),
      .stir (.feed [.data (Handshake.encode
        ⟨.none, Vector.replicate 20 0, ⟨Vector.replicate 20 8⟩⟩)]),
      .call 0 .process, .stir (.feed [.data bytes])]

/-- Of two frames of a round, the first is taken by the second module, and the second is told
to the owner, who sees it in the queue and in the record. -/
theorem frames_have_one_owner_of_watched :
    let c := watchedWith ((Message.encode .haveAll) ++ Message.encode (.havePiece 5))
    let told := c.handle (Message.toFrame (.havePiece 5))
    (c.cut 1).frames = [Message.toFrame .haveAll, Message.toFrame (.havePiece 5)] ∧
      HasOneFate c (Message.toFrame .haveAll) .taken ∧
      HasOneFate c (Message.toFrame (.havePiece 5)) (.told (.havePiece 5)) ∧
      told.outbox.events = c.outbox.events ++ [.havePiece 5] ∧
      c.state.pieces.has 5 = false ∧ told.state.pieces.has 5 = true ∧
      c.process 1 = ((c.beforeFrames 1).handleAll (c.cut 1).frames).finish none 14 := by
  intro c told
  have hreach : c.IsReachable := ⟨_, _, _, _, rfl⟩
  have hc : c.IsListening := hreach.isListening (by decide +kernel) (by decide +kernel)
  have hfault : c.arrival.fault = none := by decide +kernel
  have hcut : (c.cut 1).frames = [Message.toFrame .haveAll, Message.toFrame (.havePiece 5)] := by
    decide +kernel
  have hrefused : (c.cut 1).fault = none := by decide +kernel
  have hlength : c.arrival.data.length = 14 := by decide +kernel
  have htook : (c.offered 14 []).result = .ok true := by decide +kernel
  obtain ⟨hfates, hround⟩ := frames_have_one_owner c
  obtain ⟨-, hprocess⟩ := hround hc hfault 1
  rw [hrefused, hlength] at hprocess
  obtain ⟨fate, htaken⟩ := hfates (Message.toFrame .haveAll) (by decide)
  obtain ⟨other, htold⟩ := hfates (Message.toFrame (.havePiece 5)) (by decide)
  have hfirst : fate = .taken := by
    rcases htaken.meets.cases with
      ⟨event, htells, -⟩ | ⟨hshort, -⟩ | ⟨id, length, payload, hframe, -, hfate⟩
    · exact absurd (htells.id_lt rfl) (by decide)
    · exact absurd (hshort.id_lt rfl) (by decide)
    · obtain ⟨rfl, -, rfl⟩ := Frame.message.inj hframe
      exact hfate.trans (congrArg Fate.ofResult htook)
  have htells : (Message.toFrame (.havePiece 5)).Tells (.havePiece 5) :=
    .havePiece (by decide) (by decide)
  have hnotes := c.state.notes_observe (.havePiece 5)
  have hsecond : Fate.told (.havePiece 5) = other := (htold.unique _ _ (.told htells hnotes)).1
  subst hfirst hsecond
  exact ⟨hcut, htaken, htold, by decide +kernel, by decide +kernel, by decide +kernel, hprocess⟩

end Connection
end PeerLink
