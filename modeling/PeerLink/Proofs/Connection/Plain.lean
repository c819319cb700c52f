import PeerLink.Proofs.Connection.Ledger
import PeerLink.Proofs.Connection.Meeting
import PeerLink.Proofs.Connection.Splitting

/-!
# Plain messages are taken

A plain message is one event for a peer with the fast extension, and fits the frames that
it accepts.  A session with that extension, or without any module, takes every plain
message and tells the event if it is one for it; it queues nothing for the peer, whatever
comes in.  So it refuses no part of a stream of plain messages that has a handshake with
its own info hash in front: `Listener.Awaits.result`.
-/

namespace PeerLink

/-! ## What is told of messages -/

namespace Message

/-- The event that a message is for a peer with or without the fast extension.  One without
it takes no notice of the messages of the extension. -/
def eventFor? (fast : Bool) (message : Message) : Option Event :=
  if fast then message.event? else message.base?

theorem isInbound_of_event? {message : Message} {event : Event}
    (h : message.event? = some event) : event.IsInbound := by
  cases message with
  | extended id payload => cases h
  | _ =>
    obtain rfl := Option.some.inj h
    trivial

theorem eventFor?_of_base? {message : Message} {event : Event} (h : message.base? = some event)
    (fast : Bool) : message.eventFor? fast = some event := by
  rw [eventFor?, event?, h, Option.some_or, ite_self]

theorem event?_of_eventFor? {fast : Bool} {message : Message} {event : Event}
    (h : message.eventFor? fast = some event) : message.event? = some event := by
  cases fast with
  | false =>
    have hbase : message.base? = some event := h
    rw [event?, hbase, Option.some_or]
  | true => exact h

end Message

/-- The events that tell what the peer said behind its handshake, if there is no other cause
for events. -/
def Event.ofMessages (events : List Event) : List Event := (news events).filter (!·.isHandshake)

namespace Event

theorem ofMessages_append (first second : List Event) :
    ofMessages (first ++ second) = ofMessages first ++ ofMessages second := by
  rw [ofMessages, news_append, List.filter_append]
  rfl

theorem ofMessages_of_isInbound {events : List Event} (h : ∀ event ∈ events, event.IsInbound) :
    ofMessages events = events := by
  have hnews : news events = events := by
    rw [news, List.filter_eq_self]
    intro event hevent
    have hinbound := h event hevent
    cases event with
    | noData => exact hinbound.elim
    | _ => rfl
  rw [ofMessages, hnews, List.filter_eq_self]
  intro event hevent
  rw [(h event hevent).isHandshake_eq]
  rfl

end Event

/-- If the frames are those of plain messages, the events tell what these are for a peer with
or without the fast extension. -/
def Reports (fast : Bool) (limit : Nat) (frames : List Frame) (events : List Event) : Prop :=
  ∀ told : List Message, frames = told.map Message.toFrame →
    (∀ message ∈ told, message.IsPlain limit) →
    Event.ofMessages events = told.filterMap (Message.eventFor? fast)

theorem Reports.nil (fast : Bool) (limit : Nat) : Reports fast limit [] [] := by
  intro told hframes _
  rw [List.map_eq_nil_iff.mp hframes.symm]
  rfl

theorem Reports.append {fast : Bool} {limit : Nat} {frames more : List Frame}
    {events raised : List Event} (h : Reports fast limit frames events)
    (h' : Reports fast limit more raised) :
    Reports fast limit (frames ++ more) (events ++ raised) := by
  intro told hframes hplain
  obtain ⟨earlier, later, rfl, hearlier, hlater⟩ := List.map_eq_append_iff.mp hframes.symm
  obtain ⟨hfirst, hsecond⟩ := List.forall_mem_append.mp hplain
  rw [Event.ofMessages_append, h earlier hearlier.symm hfirst, h' later hlater.symm hsecond,
    List.filterMap_append]

/-! ## Sessions that take plain messages -/

section Sessions

variable {X Y : Type}

/-- There are no modules, or the fast extension is the only one. -/
inductive Equips : Bool → List (AnyModule X Y) → Prop where
  | bare : Equips false []
  | fast (extension : FastExtension) : Equips true [.fast extension]

/-- A frame goes to the first module that claims its command, if that takes it. -/
theorem Capability.offer_of_taken {σ : Type} [Capability σ] {m next : σ}
    {state : ConnectionState} {command : UInt8} {payload : Bytes} {output : Output}
    (hclaims : claims m command = true)
    (h : onCommand m state command payload = .ok next true output) (rest : List σ) :
    offer state command payload (m :: rest) = .ok (next :: rest) true output := by
  rw [offer, if_pos hclaims, h]
  rfl

theorem FastExtension.frames_onCommand (fast : FastExtension) (command : UInt8)
    (payload : Bytes) : (fast.onCommand command payload).output.frames = [] := by
  rw [onCommand]
  split <;> rfl

/-- The fast extension takes its own messages. -/
theorem FastExtension.onCommand_of_fast? (fast : FastExtension) {message : Message}
    {event : Event} (h : message.fast? = some event) {command : Command} {payload : Bytes}
    (hframe : message.toFrame = .ofCommand command.toByte payload) :
    Capability.claims fast command.toByte = true ∧
      fast.onCommand command.toByte payload = .ok (fast.note event) true (.ofEvent event) := by
  have hread : ∀ known : Command, command.toByte = known.toByte →
      FastExtension.read? known payload = some (.ok event) →
      fast.onCommand command.toByte payload = .ok (fast.note event) true (.ofEvent event) := by
    intro known hid hread
    rw [onCommand, hid, Command.ofByte?_toByte, Option.bind_some, hread]
  cases message with
  | suggest index =>
    obtain rfl := Option.some.inj h
    obtain ⟨hid, -, rfl⟩ := Frame.message.inj hframe
    refine ⟨hid ▸ rfl, hread .suggest hid.symm ?_⟩
    rw [FastExtension.read?, Inbound.pieceIndex_ofUInt32]
    rfl
  | haveAll =>
    obtain rfl := Option.some.inj h
    obtain ⟨hid, -, rfl⟩ := Frame.message.inj hframe
    exact ⟨hid ▸ rfl, hread .haveAll hid.symm rfl⟩
  | haveNone =>
    obtain rfl := Option.some.inj h
    obtain ⟨hid, -, rfl⟩ := Frame.message.inj hframe
    exact ⟨hid ▸ rfl, hread .haveNone hid.symm rfl⟩
  | reject range =>
    obtain rfl := Option.some.inj h
    obtain ⟨hid, -, rfl⟩ := Frame.message.inj hframe
    refine ⟨hid ▸ rfl, hread .reject hid.symm ?_⟩
    rw [FastExtension.read?, Inbound.range_encode]
    rfl
  | allowedFast index =>
    obtain rfl := Option.some.inj h
    obtain ⟨hid, -, rfl⟩ := Frame.message.inj hframe
    refine ⟨hid ▸ rfl, hread .allowedFast hid.symm ?_⟩
    rw [FastExtension.read?, Inbound.pieceIndex_ofUInt32]
    rfl
  | _ => cases h

variable [Capability X] [SubProtocol Y] {fast : Bool} {session : Session X Y}

theorem Equips.each {modules : List (AnyModule X Y)} (h : Equips fast modules)
    (state : ConnectionState) (handshake : Handshake) :
    Reply.each (fun m => Capability.onHandshake m state handshake) modules =
      .ok modules () .none := by
  cases h with
  | bare => rfl
  | fast extension => rfl

/-- Whatever is offered to these modules, they queue nothing for the peer. -/
theorem Equips.offer {modules : List (AnyModule X Y)} (h : Equips fast modules)
    (state : ConnectionState) (command : UInt8) (payload : Bytes) :
    Equips fast (Capability.offer state command payload modules).next ∧
      (Capability.offer state command payload modules).output.frames = [] := by
  cases h with
  | bare => exact ⟨.bare, rfl⟩
  | fast extension =>
    have hquiet := extension.frames_onCommand command payload
    rw [Capability.offer]
    split
    · dsimp only
      split
      · exact ⟨.fast _, hquiet⟩
      · exact ⟨.fast _, hquiet⟩
      · exact ⟨.fast _, (List.append_nil _).trans hquiet⟩
    · exact ⟨.fast extension, rfl⟩

theorem Equips.hear (h : Equips fast session.modules) (frame : Frame) :
    Equips fast (session.hear frame).next.modules ∧ (session.hear frame).output.frames = [] := by
  cases frame with
  | keepAlive => exact ⟨h, rfl⟩
  | message command length payload =>
    have hoffer := h.offer session.state command payload
    rw [Session.hear]
    split
    · exact ⟨h, rfl⟩
    · split
      · exact ⟨h, rfl⟩
      · exact ⟨h, rfl⟩
      · rw [Session.offer]
        split <;> exact hoffer

/-- A message is taken, and told if it is one for these modules. -/
theorem Equips.hear_message (h : Equips fast session.modules) {limit : Nat} {message : Message}
    (hplain : message.IsPlain limit) :
    (session.hear message.toFrame).result = .ok () ∧
      (session.hear message.toFrame).output.events = (message.eventFor? fast).toList := by
  obtain ⟨hevent, hvalid, -⟩ := hplain
  cases hbase : message.base? with
  | some event =>
    rw [session.hear_of_base? hbase hvalid, Message.eventFor?_of_base? hbase]
    exact ⟨rfl, rfl⟩
  | none =>
    obtain ⟨command, payload, hframe, hoffer⟩ := session.exists_hear_of_base?_eq_none hbase
    rw [hoffer, Session.offer]
    obtain ⟨state, modules⟩ := session
    cases h with
    | bare =>
      rw [Message.eventFor?, if_neg Bool.false_ne_true, hbase]
      exact ⟨rfl, rfl⟩
    | fast extension =>
      rw [Message.event?, hbase, Option.none_or] at hevent
      obtain ⟨event, hfast⟩ := Option.isSome_iff_exists.mp hevent
      obtain ⟨hclaims, htaken⟩ := extension.onCommand_of_fast? hfast hframe
      have hanswer : Capability.onCommand (AnyModule.fast extension : AnyModule X Y) state
          command.toByte payload = .ok (.fast (extension.note event)) true (.ofEvent event) :=
        congrArg (Reply.mapNext AnyModule.fast) htaken
      have hclaimed : Capability.claims (AnyModule.fast extension : AnyModule X Y)
          command.toByte = true := hclaims
      have hoffered := Capability.offer_of_taken hclaimed hanswer []
      rw [hoffered, Message.eventFor?, if_pos rfl, Message.event?, hbase, Option.none_or, hfast]
      exact ⟨rfl, rfl⟩

theorem Equips.hearAll_messages (h : Equips fast session.modules) {limit : Nat}
    {messages : List Message} (hplain : ∀ message ∈ messages, message.IsPlain limit) :
    (session.hearAll (messages.map Message.toFrame)).result = .ok () ∧
      (session.hearAll (messages.map Message.toFrame)).output.events =
        messages.filterMap (Message.eventFor? fast) := by
  induction messages generalizing session with
  | nil => exact ⟨rfl, rfl⟩
  | cons message rest ih =>
    obtain ⟨hmessage, hrest⟩ := List.forall_mem_cons.mp hplain
    obtain ⟨hresult, hevents⟩ := h.hear_message hmessage
    obtain ⟨hlater, htold⟩ := ih (h.hear message.toFrame).1 hrest
    rw [List.map_cons, Session.hearAll_cons_of_ok hresult]
    refine ⟨hlater, ?_⟩
    calc
      _ = (session.hear message.toFrame).output.events ++
          ((session.hear message.toFrame).next.hearAll
            (rest.map Message.toFrame)).output.events := rfl
      _ = (message.eventFor? fast).toList ++ rest.filterMap (Message.eventFor? fast) := by
        rw [hevents, htold]
      _ = (message :: rest).filterMap (Message.eventFor? fast) := by
        rw [List.filterMap_cons]
        cases message.eventFor? fast <;> rfl

end Sessions

/-! ## Listening to plain messages -/

namespace Listener

variable {X Y : Type} {listener : Listener X Y} {digest : Digest} {later : Bytes}

/-- With the bytes that are still to come, what waits for a session is the handshake of a
peer that names this info hash, if it is still to come, and then plain messages.  It may be
that nothing comes at all. -/
inductive Awaits (digest : Digest) (listener : Listener X Y) (later : Bytes) : Prop where
  | nothing (hreceived : listener.session.state.handshakeReceived = false)
      (hbytes : listener.buffer.bytes ++ later = [])
  | handshake (peer : Handshake) (messages : List Message)
      (hreceived : listener.session.state.handshakeReceived = false)
      (hpeer : peer.infoHash = digest)
      (hplain : ∀ message ∈ messages, message.IsPlain listener.buffer.limit)
      (hbytes : listener.buffer.bytes ++ later = peer.encode ++ messages.flatMap Message.encode)
  | messages (messages : List Message)
      (hreceived : listener.session.state.handshakeReceived = true)
      (hplain : ∀ message ∈ messages, message.IsPlain listener.buffer.limit)
      (hbytes : listener.buffer.bytes ++ later = messages.flatMap Message.encode)

theorem Awaits.feed {read : Bytes} (h : listener.Awaits digest (read ++ later)) :
    (listener.feed read).Awaits digest later := by
  have hfed : (listener.feed read).buffer.bytes ++ later =
      listener.buffer.bytes ++ (read ++ later) := List.append_assoc ..
  cases h with
  | nothing hreceived hbytes => exact .nothing hreceived (hfed.trans hbytes)
  | handshake peer messages hreceived hpeer hplain hbytes =>
    exact .handshake peer messages hreceived hpeer hplain (hfed.trans hbytes)
  | messages messages hreceived hplain hbytes =>
    exact .messages messages hreceived hplain (hfed.trans hbytes)

variable [Capability X] [SubProtocol Y] {fast : Bool}

theorem listen_of_messages {session : Session X Y} (h : Equips fast session.modules)
    (hreceived : session.state.handshakeReceived = true) {buffer : Reassembly}
    {messages : List Message} (hplain : ∀ message ∈ messages, message.IsPlain buffer.limit)
    (hbytes : buffer.bytes ++ later = messages.flatMap Message.encode) :
    (listen ⟨session, buffer⟩).result = .ok () := by
  have hall : messages.flatMap Message.encode =
      (messages.map Message.toFrame).flatMap Frame.encode := by
    rw [List.flatMap_map]
    rfl
  have hfits : ∀ frame ∈ messages.map Message.toFrame, frame.Fits buffer.limit :=
    List.forall_mem_map.mpr fun message hmessage => (hplain message hmessage).2
  rw [hall] at hbytes
  have hfault := Reassembly.drain_fault_of_flatMap_encode hfits hbytes
  obtain ⟨hdrained, hvalid, -⟩ := buffer.eq_drain
  rw [hdrained, List.append_assoc] at hbytes
  obtain ⟨left, hsplit, -⟩ := Frame.exists_append_of_flatMap_encode
    (fun frame hframe => (hvalid frame hframe).1) (fun frame hframe => (hfits frame hframe).1)
    hbytes
  obtain ⟨told, waiting, rfl, htold, -⟩ := List.map_eq_append_iff.mp hsplit
  obtain ⟨hheard, -⟩ := h.hearAll_messages (List.forall_mem_append.mp hplain).1
  rw [htold] at hheard
  obtain ⟨hfailure, -⟩ := listen_of_received session hreceived buffer
  rw [← Reply.failure?_eq_none_iff, hfailure, hfault, Reply.failure?_eq_none_iff.mpr hheard]
  rfl

/-- A session that awaits plain messages refuses nothing. -/
theorem Awaits.result (h : listener.Awaits digest later)
    (hequips : Equips fast listener.session.modules)
    (hown : ∀ own, listener.session.state.infoHash = some own → own = digest) :
    listener.listen.result = .ok () := by
  have hwaits : listener.session.state.handshakeReceived = false →
      listener.buffer.takeHandshake = .ok none → listener.listen.result = .ok () := by
    intro hreceived hnone
    rw [listen_of_none ((nextItem_eq_none_iff_takeHandshake hreceived).mpr hnone)]
    rfl
  cases h with
  | messages messages hreceived hplain hbytes =>
    exact listen_of_messages hequips hreceived hplain hbytes
  | nothing hreceived hbytes =>
    have hempty : listener.buffer.bytes = [] := (List.append_eq_nil_iff.mp hbytes).1
    refine hwaits hreceived ?_
    rw [Reassembly.takeHandshake, hempty]
    rfl
  | handshake peer messages hreceived hpeer hplain hbytes =>
    rcases Reassembly.takeHandshake_of_encode hbytes with hnone | ⟨left, htaken⟩
    · exact hwaits hreceived hnone
    · have hitem : listener.nextItem = .ok (some (.handshake peer, left)) := by
        rw [nextItem, hreceived, if_neg Bool.false_ne_true, htaken]
      have hsame : ¬ listener.session.state.infoHash.any (· != peer.infoHash) = true := by
        cases hknown : listener.session.state.infoHash with
        | none => simp
        | some own => simp [hown own hknown, hpeer]
      obtain ⟨hfront, hlimit⟩ := Reassembly.takeHandshake_eq_some_iff.mp htaken
      rw [hfront, List.append_assoc, List.append_cancel_left_eq] at hbytes
      rcases listener.session.accept_cases peer with
        ⟨failure, haccept⟩ | ⟨next, haccept, hmodules, -, hnow⟩
      · rw [Session.accept, if_neg hsame] at haccept
        cases haccept
      · have hnext : (listener.session.take (.handshake peer)).next = next :=
          congrArg Reply.next haccept
        rw [listen_of_taken hitem (congrArg Reply.result haccept), hnext]
        exact listen_of_messages (hmodules ▸ hequips) hnow (hlimit ▸ hplain) hbytes

end Listener

section Listeners

variable {X Y : Type} [Capability X] [SubProtocol Y] {fast : Bool}

/-- Whatever comes in, these modules stay what they are and queue nothing for the peer. -/
theorem Equips.listen (listener : Listener X Y) (h : Equips fast listener.session.modules) :
    Equips fast listener.listen.next.session.modules ∧
      listener.listen.output.frames = [] := by
  have htake : ∀ (session : Session X Y) item, Equips fast session.modules →
      Equips fast (session.take item).next.modules ∧
        (session.take item).output.frames = [] := by
    intro session item hequips
    cases item with
    | frame frame => exact hequips.hear frame
    | handshake handshake =>
      rcases session.accept_cases handshake with
        ⟨failure, haccept⟩ | ⟨next, haccept, hmodules, -⟩
      · rw [Session.take, haccept]
        exact ⟨hequips, rfl⟩
      · rw [Session.take, haccept]
        exact ⟨hmodules ▸ hequips, rfl⟩
  induction listener using Listener.listen.induct with
  | case1 listener failure hnext =>
    rw [Listener.listen_of_error hnext]
    exact ⟨h, rfl⟩
  | case2 listener hnext =>
    rw [Listener.listen_of_none hnext]
    exact ⟨h, rfl⟩
  | case3 listener item rest hnext hlt first failure hrefused =>
    rw [Listener.listen_of_refused hnext hrefused]
    exact htake listener.session item h
  | case4 listener item rest hnext hlt first htaken ih =>
    obtain ⟨hequips, hquiet⟩ := htake listener.session item h
    obtain ⟨hlater, hsilent⟩ := ih hequips
    rw [Listener.listen_of_taken hnext htaken]
    refine ⟨hlater, ?_⟩
    exact (congrArg₂ (· ++ ·) hquiet hsilent).trans (List.append_nil _)

/-- What is told goes with the messages that are heard. -/
theorem Equips.reports_listen (listener : Listener X Y)
    (h : Equips fast listener.session.modules) (limit : Nat)
    (hok : listener.listen.result = .ok ()) :
    Reports fast limit listener.frames listener.listen.output.events := by
  intro told hframes hplain
  obtain ⟨opened, opening, hopened, -, -, houtput⟩ := Listener.exists_opened_of_listen hok
  have hopening : Equips fast opened.modules ∧ Event.ofMessages opening.events = [] := by
    rcases hopened with ⟨rfl, rfl⟩ | ⟨handshake, haccept⟩
    · exact ⟨h, rfl⟩
    · rcases listener.session.accept_cases handshake with
        ⟨failure, hrefused⟩ | ⟨next, haccepted, hmodules, -⟩
      · rw [hrefused] at haccept
        cases haccept
      · rw [haccepted] at haccept
        cases haccept
        exact ⟨hmodules ▸ h, rfl⟩
  have hinbound : ∀ event ∈ told.filterMap (Message.eventFor? fast), event.IsInbound := by
    intro event hevent
    obtain ⟨message, -, hmessage⟩ := List.mem_filterMap.mp hevent
    exact Message.isInbound_of_event? (Message.event?_of_eventFor? hmessage)
  calc
    Event.ofMessages listener.listen.output.events
      = Event.ofMessages opening.events ++
          Event.ofMessages (opened.hearAll listener.frames).output.events := by
        rw [houtput, ← Event.ofMessages_append]
        rfl
    _ = Event.ofMessages (told.filterMap (Message.eventFor? fast)) := by
        rw [hopening.2, hframes, (hopening.1.hearAll_messages hplain).2, List.nil_append]
    _ = told.filterMap (Message.eventFor? fast) := Event.ofMessages_of_isInbound hinbound

end Listeners
end PeerLink
