import PeerLink.Connection.Process
import PeerLink.Proofs.Wire.Message

/-!
# Hearing frames

Dispatching looks at the record and the modules of a connection and at nothing
else, and what it queues goes behind what is queued already.  `Session.hear` is
dispatching without the connection around it, and `dispatch_eq_absorb` says that
the two are the same.
-/

namespace PeerLink

namespace Outbox

@[simp]
theorem add_none (outbox : Outbox) : outbox.add .none = outbox := by
  simp [add, Output.none]

@[simp]
theorem add_ofEvent (outbox : Outbox) (event : Event) :
    outbox.add (.ofEvent event) = outbox.pushEvent event := by
  simp [add, Output.ofEvent, pushEvent]

theorem add_append (outbox : Outbox) (first second : Output) :
    outbox.add (first ++ second) = (outbox.add first).add second := by
  change outbox.add (first.append second) = _
  simp [add, Output.append]

end Outbox

namespace Reply

variable {σ α : Type}

@[simp]
theorem after_none (reply : Reply σ α) : reply.after .none = reply := by
  change { reply with output := Output.none.append reply.output } = reply
  simp [Output.append, Output.none]

theorem after_after (first second : Output) (reply : Reply σ α) :
    (reply.after second).after first = reply.after (first ++ second) := by
  change { reply with output := first.append (second.append reply.output) } =
    { reply with output := (first.append second).append reply.output }
  simp [Output.append]

end Reply

/-- The part of a connection that frames of the peer act on. -/
structure Session (X Y : Type) where
  state : ConnectionState
  modules : List (AnyModule X Y)

namespace Session

variable {X Y : Type}

def tell (session : Session X Y) (event : Event) : Reply (Session X Y) Unit :=
  .ok { session with state := session.state.observe event } () (.ofEvent event)

variable [Capability X] [SubProtocol Y]

/-- The events of a frame that a module took are folded into the record. -/
def offer (session : Session X Y) (command : UInt8) (payload : Bytes) :
    Reply (Session X Y) Unit :=
  let reply := Capability.offer session.state command payload session.modules
  match reply.result with
  | .error failure => .fail ⟨session.state, reply.next⟩ failure reply.output
  | .ok true => .ok ⟨session.state.observeAll reply.output.events, reply.next⟩ () reply.output
  | .ok false => .ok ⟨session.state, reply.next⟩ () reply.output

/-- What one frame does. -/
def hear (session : Session X Y) : Frame → Reply (Session X Y) Unit
  | .keepAlive => session.tell .keepAlive
  | .message command length payload =>
    match (Command.ofByte? command).bind Inbound.flag? with
    | some event => session.tell event
    | none =>
      match Inbound.read? command length payload with
      | some (.ok event) => session.tell event
      | some (.error _) => .fail session (.malformedPayload (.invalidCommand command)) .none
      | none => session.offer command payload

/-- What frames do in order, up to and including the first that fails. -/
def hearAll (session : Session X Y) : List Frame → Reply (Session X Y) Unit
  | [] => .ok session () .none
  | frame :: rest =>
    let first := session.hear frame
    match first.result with
    | .error failure => .fail first.next failure first.output
    | .ok () => (first.next.hearAll rest).after first.output

theorem hearAll_cons_of_error {session : Session X Y} {frame : Frame} {failure : Failure}
    (h : (session.hear frame).result = .error failure) (rest : List Frame) :
    session.hearAll (frame :: rest) =
      .fail (session.hear frame).next failure (session.hear frame).output := by
  simp only [hearAll, h]

theorem hearAll_cons_of_ok {session : Session X Y} {frame : Frame}
    (h : (session.hear frame).result = .ok ()) (rest : List Frame) :
    session.hearAll (frame :: rest) =
      ((session.hear frame).next.hearAll rest).after (session.hear frame).output := by
  simp only [hearAll, h]

/-- Frames that are heard without failure can be heard first. -/
theorem hearAll_append {session : Session X Y} {first : List Frame}
    (h : (session.hearAll first).result = .ok ()) (second : List Frame) :
    session.hearAll (first ++ second) =
      ((session.hearAll first).next.hearAll second).after (session.hearAll first).output := by
  induction first generalizing session with
  | nil => exact (Reply.after_none _).symm
  | cons frame rest ih =>
    cases hframe : (session.hear frame).result with
    | error failure =>
      rw [hearAll_cons_of_error hframe] at h
      cases h
    | ok =>
      rw [hearAll_cons_of_ok hframe] at h
      rw [List.cons_append, hearAll_cons_of_ok hframe, hearAll_cons_of_ok hframe, ih h]
      exact Reply.after_after _ _ _

/-! ## What messages do -/

variable (session : Session X Y)

theorem hear_flag (command : Command) {event : Event} (h : Inbound.flag? command = some event)
    (length : UInt32) (payload : Bytes) :
    session.hear (.message command.toByte length payload) = session.tell event := by
  rw [hear, Command.ofByte?_toByte, Option.bind_some, h]

theorem hear_read (command : Command) {length : UInt32} {payload : Bytes} {event : Event}
    {reader : UInt32 → Bytes → Except Failure Event} (hflag : Inbound.flag? command = none)
    (hreader : Inbound.reader? command = some reader) (h : reader length payload = .ok event) :
    session.hear (.message command.toByte length payload) = session.tell event := by
  have hread : Inbound.read? command.toByte length payload = some (.ok event) := by
    rw [Inbound.read?, Command.ofByte?_toByte, Option.bind_some, hreader, Option.map_some, h]
  rw [hear, Command.ofByte?_toByte, Option.bind_some, hflag, hread]

theorem hear_other {command : Command} (hflag : Inbound.flag? command = none)
    (hreader : Inbound.reader? command = none) (length : UInt32) (payload : Bytes) :
    session.hear (.message command.toByte length payload) =
      session.offer command.toByte payload := by
  have hread : Inbound.read? command.toByte length payload = none := by
    rw [Inbound.read?, Command.ofByte?_toByte, Option.bind_some, hreader]
    rfl
  rw [hear, Command.ofByte?_toByte, Option.bind_some, hflag, hread]

/-- A message of the base protocol is told. -/
theorem hear_of_base? {message : Message} {event : Event} (h : message.base? = some event)
    (hvalid : message.toFrame.IsValid) : session.hear message.toFrame = session.tell event := by
  cases message with
  | keepAlive =>
    obtain rfl := Option.some.inj h
    rfl
  | choke => exact session.hear_flag .choke h _ _
  | unchoke => exact session.hear_flag .unchoke h _ _
  | interested => exact session.hear_flag .interested h _ _
  | notInterested => exact session.hear_flag .notInterested h _ _
  | havePiece index =>
    obtain rfl := Option.some.inj h
    exact session.hear_read .havePiece rfl rfl
      (congrArg _ (Inbound.pieceIndex_ofUInt32 _ index))
  | bitfield bits =>
    obtain rfl := Option.some.inj h
    exact session.hear_read .bitfield rfl rfl
      (congrArg _ (Inbound.bitfield_of_length hvalid))
  | request range =>
    obtain rfl := Option.some.inj h
    exact session.hear_read .request rfl rfl
      (congrArg _ (Inbound.range_encode _ range))
  | piece block =>
    obtain rfl := Option.some.inj h
    exact session.hear_read .piece rfl rfl (congrArg _ (Inbound.block_encode block))
  | cancel range =>
    obtain rfl := Option.some.inj h
    exact session.hear_read .cancel rfl rfl
      (congrArg _ (Inbound.range_encode _ range))
  | port number =>
    obtain rfl := Option.some.inj h
    exact session.hear_read .port rfl rfl (congrArg _ (Inbound.port_ofUInt16 number))
  | _ => cases h

/-- All other messages are offered to the modules. -/
theorem exists_hear_of_base?_eq_none {message : Message} (h : message.base? = none) :
    ∃ command payload, message.toFrame = .ofCommand (Command.toByte command) payload ∧
      session.hear message.toFrame = session.offer command.toByte payload := by
  cases message with
  | suggest index => exact ⟨.suggest, _, rfl, session.hear_other rfl rfl _ _⟩
  | haveAll => exact ⟨.haveAll, _, rfl, session.hear_other rfl rfl _ _⟩
  | haveNone => exact ⟨.haveNone, _, rfl, session.hear_other rfl rfl _ _⟩
  | reject range => exact ⟨.reject, _, rfl, session.hear_other rfl rfl _ _⟩
  | allowedFast index => exact ⟨.allowedFast, _, rfl, session.hear_other rfl rfl _ _⟩
  | extended id payload => exact ⟨.extended, _, rfl, session.hear_other rfl rfl _ _⟩
  | _ => cases h

end Session

namespace Connection

variable {X Y : Type}

def session (c : Connection X Y) : Session X Y := ⟨c.state, c.modules⟩

/-- Takes over what was heard, and why hearing ended early. -/
def absorb (c : Connection X Y) (reply : Reply (Session X Y) Unit) :
    Connection X Y × Option Failure :=
  ({ c with
      state := reply.next.state
      modules := reply.next.modules
      outbox := c.outbox.add reply.output },
    match reply.result with
    | .ok () => none
    | .error failure => some failure)

variable [Capability X] [SubProtocol Y]

theorem offer_eq_absorb (c : Connection X Y) (command : UInt8) (payload : Bytes) :
    c.offer command payload = c.absorb (c.session.offer command payload) := by
  rw [offer, Session.offer]
  dsimp only [session]
  generalize Capability.offer c.state command payload c.modules = reply
  obtain ⟨result, next, output⟩ := reply
  cases result with
  | error failure => rfl
  | ok taken => cases taken <;> rfl

theorem dispatch_eq_absorb (c : Connection X Y) (frame : Frame) :
    c.dispatch frame = c.absorb (c.session.hear frame) := by
  have htell : ∀ event, (c.tell event, none) = c.absorb (c.session.tell event) := by
    intro event
    simp [tell, absorb, session, Session.tell, Reply.ok]
  cases frame with
  | keepAlive => exact htell _
  | message command length payload =>
    rw [dispatch, Session.hear]
    cases (Command.ofByte? command).bind Inbound.flag? with
    | some event => exact htell event
    | none =>
      cases Inbound.read? command length payload with
      | none => exact offer_eq_absorb c command payload
      | some read =>
        cases read with
        | ok event => exact htell event
        | error failure => simp [absorb, session, Reply.fail]

theorem dispatchAll_eq_absorb (c : Connection X Y) (frames : List Frame) :
    c.dispatchAll frames = c.absorb (c.session.hearAll frames) := by
  induction frames generalizing c with
  | nil => simp [dispatchAll, Session.hearAll, absorb, session, Reply.ok]
  | cons frame rest ih =>
    rw [dispatchAll, dispatch_eq_absorb]
    cases hframe : (c.session.hear frame).result with
    | error failure =>
      rw [Session.hearAll_cons_of_error hframe]
      simp only [absorb, hframe]
      rfl
    | ok =>
      rw [Session.hearAll_cons_of_ok hframe]
      simp only [absorb, hframe, ih]
      simp [session, Reply.after, Outbox.add_append]

end Connection
end PeerLink
