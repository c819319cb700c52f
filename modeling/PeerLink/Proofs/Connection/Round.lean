import Mathlib.Data.List.Induction
import PeerLink.Proofs.Connection.Listening
import PeerLink.Proofs.Connection.Standing

/-!
# Rounds of work

A round reads, listens to what it read, and writes.  If the connection is up
afterwards, the round did no more and no less than `Listener.listen` on the bytes that
it read, so rounds in a row do what one round does that reads all their bytes; if
reading failed, the round heard nothing at all.
-/

namespace PeerLink

/-- The events that are more than the news that there is nothing to read. -/
def Event.news (events : List Event) : List Event := events.filter (· ≠ .noData)

@[simp]
theorem Event.news_append (first second : List Event) :
    news (first ++ second) = news first ++ news second := List.filter_append ..

namespace Connection

variable {X Y : Type}

/-- What the next round reads. -/
def arrival (c : Connection X Y) : Transport.Arrival := c.transport.read c.config.readChunkSize

/-- Before a round looks at what it read, only the buffer, the queue of outgoing bytes
and what is left to read differ. -/
theorem exists_receive_keepAlive (c : Connection X Y) (now : Nat) :
    ∃ fed, (c.keepAlive now).receive = (fed, c.arrival.data.length, c.arrival.fault) ∧
      fed.listener = c.listener.feed c.arrival.data ∧ fed.outbox.events = c.outbox.events ∧
      fed.transport = { c.transport with reads := c.arrival.reads } := by
  rw [keepAlive]
  split
  · exact ⟨_, rfl, rfl, rfl, rfl⟩
  · exact ⟨_, rfl, rfl, rfl, rfl⟩

theorem news_noteIdle (c : Connection X Y) (received : Nat) :
    Event.news (c.noteIdle received).outbox.events = Event.news c.outbox.events := by
  rw [noteIdle]
  split
  · exact (Event.news_append _ _).trans (List.append_nil _)
  · rfl

theorem noteIdle_keeps (c : Connection X Y) (received : Nat) :
    (c.noteIdle received).listener = c.listener ∧
      (c.noteIdle received).transport = c.transport := by
  rw [noteIdle]
  split <;> exact ⟨rfl, rfl⟩

variable [Capability X] [SubProtocol Y] {c d : Connection X Y}

/-- The frames that a move hands to a connection. -/
def framesIn (c : Connection X Y) : Move X Y → List Frame
  | .call _ .process =>
    if c.isDown = false ∧ c.transport.connected = true ∧ c.arrival.fault = none then
      (c.listener.feed c.arrival.data).frames
    else []
  | _ => []

/-- The frames that moves hand to a connection. -/
def framesOf (c : Connection X Y) : List (Move X Y) → List Frame
  | [] => []
  | m :: rest => c.framesIn m ++ (c.move m).framesOf rest

theorem framesOf_concat (start : Connection X Y) (moves : List (Move X Y)) (m : Move X Y) :
    start.framesOf (moves ++ [m]) = start.framesOf moves ++ (start.play moves).framesIn m := by
  induction moves generalizing start with
  | nil => exact List.append_nil _
  | cons first rest ih =>
    change start.framesIn first ++ (start.move first).framesOf (rest ++ [m]) = _
    rw [ih, ← List.append_assoc]
    rfl

/-- From `c`, listening to `bytes` leads to `d`, and nothing is refused. -/
structure GoesOn (c : Connection X Y) (bytes : Bytes) (d : Connection X Y) : Prop where
  result : (c.listener.feed bytes).listen.result = .ok ()
  listener : d.listener = (c.listener.feed bytes).listen.next
  news : Event.news d.outbox.events = Event.news c.outbox.events ++
    Event.news (c.listener.feed bytes).listen.output.events

/-- From `c`, listening to `bytes` leads to something that is refused, and `d` was torn
down for it. -/
structure BreaksOff (c : Connection X Y) (bytes : Bytes) (d : Connection X Y) : Prop where
  refused : (c.listener.feed bytes).listen.result ≠ .ok ()
  state : d.state =
    { (c.listener.feed bytes).listen.next.session.state with phase := .disconnected }
  modules : d.modules =
    (Capability.teardownAll (c.listener.feed bytes).listen.next.session.modules).1
  news : Event.news d.outbox.events = Event.news c.outbox.events ++
    Event.news (c.listener.feed bytes).listen.output.events ++ [.droppedConnection]

theorem GoesOn.nil (h : c.listener.nextItem = .ok none) : GoesOn c [] c := by
  have hlisten : (c.listener.feed []).listen = .ok c.listener () .none := by
    rw [Listener.feed_nil, Listener.listen_of_none h]
  constructor <;> rw [hlisten]
  · rfl
  · rfl
  · exact (List.append_nil _).symm

theorem GoesOn.nextItem {bytes : Bytes} (h : GoesOn c bytes d) :
    d.listener.nextItem = .ok none := by
  rw [h.listener]
  exact Listener.nextItem_listen h.result

/-- What a connection makes of bytes, once it went on behind earlier ones. -/
theorem GoesOn.listen_append {first : Bytes} (h : GoesOn c first d) (second : Bytes) :
    (c.listener.feed (first ++ second)).listen =
      (d.listener.feed second).listen.after (c.listener.feed first).listen.output := by
  rw [Listener.feed_append, Listener.listen_feed, Reply.andThen_of_ok h.result, ← h.listener]

theorem GoesOn.trans {e : Connection X Y} {first second : Bytes} (hfirst : GoesOn c first d)
    (hsecond : GoesOn d second e) : GoesOn c (first ++ second) e := by
  have hlisten := hfirst.listen_append second
  constructor <;> rw [hlisten]
  · exact hsecond.result
  · exact hsecond.listener
  · rw [hsecond.news, hfirst.news, List.append_assoc, ← Event.news_append]
    rfl

theorem GoesOn.breaksOff {e : Connection X Y} {first second : Bytes} (hfirst : GoesOn c first d)
    (hsecond : BreaksOff d second e) : BreaksOff c (first ++ second) e := by
  have hlisten := hfirst.listen_append second
  constructor <;> rw [hlisten]
  · exact hsecond.refused
  · exact hsecond.state
  · exact hsecond.modules
  · rw [hsecond.news, hfirst.news, List.append_assoc (Event.news c.outbox.events),
      ← Event.news_append]
    rfl

/-- What would have come behind the refusal makes no difference. -/
theorem BreaksOff.append {bytes : Bytes} (h : BreaksOff c bytes d) (later : Bytes) :
    BreaksOff c (bytes ++ later) d := by
  have hlisten : (c.listener.feed (bytes ++ later)).listen = (c.listener.feed bytes).listen := by
    rw [Listener.feed_append, Listener.listen_feed]
    cases hresult : (c.listener.feed bytes).listen.result with
    | ok => exact absurd hresult h.refused
    | error failure => exact Reply.andThen_of_error hresult _
  constructor <;> rw [hlisten]
  · exact h.refused
  · exact h.state
  · exact h.modules
  · exact h.news

/-! ## One round -/

/-- The connection when a round has listened to what it read. -/
def consumed (c : Connection X Y) (now : Nat) : Connection X Y :=
  (c.keepAlive now).receive.1.consume.1

theorem consumed_listens (c : Connection X Y) (now : Nat) :
    let reply := (c.listener.feed c.arrival.data).listen
    (c.keepAlive now).receive.1.consume.2 = reply.failure? ∧
      (c.consumed now).session = reply.next.session ∧
      (reply.result = .ok () → (c.consumed now).buffer = reply.next.buffer) ∧
      (c.consumed now).outbox.events = c.outbox.events ++ reply.output.events ∧
      (c.consumed now).transport = { c.transport with reads := c.arrival.reads } := by
  obtain ⟨fed, hreceive, hlistener, hevents, htransport⟩ := exists_receive_keepAlive c now
  have htakes := consume_takesIn fed
  rw [consumed, hreceive, ← hlistener, ← hevents, ← htransport]
  refine ⟨htakes.failure, htakes.session, htakes.buffer, ?_, htakes.transport⟩
  rw [htakes.outbox]
  rfl

theorem consumed_pollSteps (hup : c.isDown = false) (now : Nat) :
    PollSteps c (c.consumed now) ∧ (c.consumed now).isDown = false := by
  have hkeep : (c.keepAlive now).isDown = false :=
    (isDown_eq_of_standing (standing_keepAlive c now)).trans hup
  have hreceive : PollSteps c (c.keepAlive now).receive.1 :=
    .tail (.single (.keepAlive now hup)) (.receive hkeep)
  have hreceived : (c.keepAlive now).receive.1.isDown = false := hkeep
  obtain ⟨hconsume, hconsumed⟩ := consume_pollSteps hreceived
  exact ⟨hreceive.trans hconsume, hconsumed⟩

theorem poll_of_fault {failure : Failure} (h : c.arrival.fault = some failure) (now : Nat) :
    ∃ fed, c.poll now = (fed, some failure) ∧ fed.session = c.session ∧
      fed.outbox.events = c.outbox.events := by
  obtain ⟨fed, hreceive, hlistener, hevents, -⟩ := exists_receive_keepAlive c now
  refine ⟨fed, ?_, congrArg Listener.session hlistener, hevents⟩
  rw [poll, hreceive, h]

theorem poll_of_refused {failure : Failure} (hfault : c.arrival.fault = none)
    (h : (c.listener.feed c.arrival.data).listen.result = .error failure) (now : Nat) :
    c.poll now = (c.consumed now, some failure) := by
  obtain ⟨fed, hreceive, -⟩ := exists_receive_keepAlive c now
  have hfailure := (consumed_listens c now).1.trans (Reply.failure?_eq_some_iff.mpr h)
  rw [poll, consumed]
  rw [hreceive, hfault] at *
  dsimp only at hfailure ⊢
  split
  · next e failure' he =>
    rw [he] at hfailure ⊢
    exact congrArg _ hfailure
  · next e he =>
    rw [he] at hfailure
    cases hfailure

theorem poll_of_taken (hfault : c.arrival.fault = none)
    (h : (c.listener.feed c.arrival.data).listen.result = .ok ()) (now : Nat) :
    (c.consumed now).flush.2 = none ∧
        c.poll now = ((c.consumed now).flush.1.noteIdle c.arrival.data.length, none) ∨
      ∃ failure, (c.consumed now).flush.2 = some failure ∧
        c.poll now = ((c.consumed now).flush.1, some failure) := by
  obtain ⟨fed, hreceive, -⟩ := exists_receive_keepAlive c now
  have hfailure := (consumed_listens c now).1.trans (Reply.failure?_eq_none_iff.mpr h)
  rw [poll, consumed]
  rw [hreceive, hfault] at *
  dsimp only at hfailure ⊢
  split
  · next e failure he =>
    rw [he] at hfailure
    cases hfailure
  · next e he =>
    rw [he]
    dsimp only
    split
    · next f failure hf =>
      rw [hf]
      exact .inr ⟨failure, rfl, rfl⟩
    · next f hf =>
      rw [hf]
      exact .inl ⟨rfl, rfl⟩

/-- A round that ends without failure goes on behind what it reads. -/
theorem poll_goesOn {now : Nat} (h : c.poll now = (d, none)) :
    c.arrival.fault = none ∧ GoesOn c c.arrival.data d ∧
      d.transport.connected = c.transport.connected := by
  cases hfault : c.arrival.fault with
  | some failure =>
    obtain ⟨fed, hpoll, -⟩ := poll_of_fault hfault now
    rw [hpoll] at h
    cases h
  | none =>
    cases hresult : (c.listener.feed c.arrival.data).listen.result with
    | error failure =>
      rw [poll_of_refused hfault hresult now] at h
      cases h
    | ok =>
      rcases poll_of_taken hfault hresult now with ⟨-, hpoll⟩ | ⟨failure, -, hpoll⟩
      · obtain ⟨-, hsession, hbuffer, hevents, htransport⟩ := consumed_listens c now
        rw [hpoll] at h
        obtain rfl := (Prod.mk.inj h).1
        obtain ⟨hlistener, hkeeps⟩ :=
          noteIdle_keeps (c.consumed now).flush.1 c.arrival.data.length
        refine ⟨rfl, ⟨hresult, ?_, ?_⟩, ?_⟩
        · rw [hlistener]
          change Listener.mk (c.consumed now).session (c.consumed now).buffer = _
          rw [hsession, hbuffer hresult]
        · rw [news_noteIdle]
          change Event.news (c.consumed now).outbox.events = _
          rw [hevents, Event.news_append]
        · rw [hkeeps]
          change (c.consumed now).transport.connected = _
          rw [htransport]
      · rw [hpoll] at h
        cases h

theorem teardown_breaksOff {e : Connection X Y} {bytes : Bytes} (hup : e.isDown = false)
    (hrefused : (c.listener.feed bytes).listen.result ≠ .ok ())
    (hsession : e.session = (c.listener.feed bytes).listen.next.session)
    (hevents : e.outbox.events = c.outbox.events ++
      (c.listener.feed bytes).listen.output.events) : BreaksOff c bytes e.teardown := by
  have hlive : ¬ e.isDown = true := by simp [hup]
  rw [teardown, if_neg hlive]
  refine ⟨hrefused, ?_, ?_, ?_⟩
  · rw [← hsession]
    rfl
  · rw [← hsession]
    rfl
  · change Event.news (e.outbox.events ++ [.droppedConnection]) = _
    rw [hevents, Event.news_append, Event.news_append]
    rfl

/-- A connection over an open transport. -/
structure IsOpen (c : Connection X Y) : Prop where
  up : c.isDown = false
  connected : c.transport.connected = true

namespace IsOpen

theorem process_of_poll (hc : c.IsOpen) {now : Nat} (h : c.poll now = (d, none)) :
    c.process now = (d, true) := by
  rw [process, hc.up, hc.connected, h]
  rfl

theorem process_of_poll_failure (hc : c.IsOpen) {now : Nat} {failure : Failure}
    (h : c.poll now = (d, some failure)) : c.process now = (d.teardown, false) := by
  rw [process, hc.up, hc.connected, h]
  rfl

/-- A round after which the connection is up goes on behind what it reads. -/
theorem process_goesOn (hc : c.IsOpen) {now : Nat} (hup : (c.process now).1.isDown = false) :
    GoesOn c c.arrival.data (c.process now).1 ∧ (c.process now).1.IsOpen := by
  cases hpoll : c.poll now with
  | mk d failure? =>
    cases failure? with
    | none =>
      obtain ⟨-, hgoes, hconnected⟩ := poll_goesOn hpoll
      rw [hc.process_of_poll hpoll] at hup ⊢
      exact ⟨hgoes, hup, hconnected.trans hc.connected⟩
    | some failure =>
      rw [hc.process_of_poll_failure hpoll, isDown_teardown] at hup
      cases hup

/-- A round after which the connection is up hands on the frames that are complete. -/
theorem framesIn_process (hc : c.IsOpen) {now : Nat} (hup : (c.process now).1.isDown = false) :
    c.framesIn (.call now .process) = (c.listener.feed c.arrival.data).frames := by
  cases hpoll : c.poll now with
  | mk d failure? =>
    cases failure? with
    | none => exact if_pos ⟨hc.up, hc.connected, (poll_goesOn hpoll).1⟩
    | some failure =>
      rw [hc.process_of_poll_failure hpoll, isDown_teardown] at hup
      cases hup

/-- A round in which reading fails hears nothing, also if bytes came in before the
failure. -/
theorem process_of_fault (hc : c.IsOpen) {failure : Failure}
    (h : c.arrival.fault = some failure) (now : Nat) :
    (c.process now).1.state = { c.state with phase := .disconnected } ∧
      (c.process now).1.modules = (Capability.teardownAll c.modules).1 ∧
      (c.process now).1.outbox.events = c.outbox.events ++ [.droppedConnection] := by
  obtain ⟨fed, hpoll, hsession, hevents⟩ := poll_of_fault h now
  have hstate : fed.state = c.state := congrArg Session.state hsession
  have hmodules : fed.modules = c.modules := congrArg Session.modules hsession
  have hup : fed.isDown = false := by
    rw [isDown, hstate]
    exact hc.up
  rw [hc.process_of_poll_failure hpoll, teardown, hup, ← hstate, ← hmodules, ← hevents]
  exact ⟨rfl, rfl, rfl⟩

end IsOpen

/-! ## Rounds in a row -/

/-- Rounds of work at these times. -/
def processAll (c : Connection X Y) (times : List Nat) : Connection X Y :=
  times.foldl (fun c now => (c.process now).1) c

/-- The bytes that come in during rounds of work at these times. -/
def delivered (c : Connection X Y) : List Nat → Bytes
  | [] => []
  | now :: rest => c.arrival.data ++ (c.process now).1.delivered rest

theorem processAll_of_isDown (h : c.isDown = true) (times : List Nat) :
    c.processAll times = c := by
  induction times with
  | nil => rfl
  | cons now rest ih =>
    have hsame : (c.process now).1 = c := by rw [process, if_pos h]
    calc
      c.processAll (now :: rest) = (c.process now).1.processAll rest := rfl
      _ = c.processAll rest := by rw [hsame]
      _ = c := ih

/-- Rounds after which the connection is up go on behind all that was delivered. -/
theorem IsOpen.processAll_goesOn (hc : c.IsOpen) (hwaits : c.listener.nextItem = .ok none)
    {times : List Nat} (hup : (c.processAll times).isDown = false) :
    GoesOn c (c.delivered times) (c.processAll times) ∧ (c.processAll times).IsOpen := by
  induction times generalizing c with
  | nil => exact ⟨.nil hwaits, hc⟩
  | cons now rest ih =>
    have hfirst : (c.process now).1.isDown = false := by
      by_cases hdown : (c.process now).1.isDown = true
      · have hsame : c.processAll (now :: rest) = (c.process now).1 :=
          processAll_of_isDown hdown rest
        rw [hsame, hdown] at hup
        cases hup
      · simpa using hdown
    obtain ⟨hgoes, hopen⟩ := hc.process_goesOn hfirst
    obtain ⟨hlater, hend⟩ := ih hopen hgoes.nextItem hup
    exact ⟨hgoes.trans hlater, hend⟩

/-! ## Behind the peer's handshake -/

/-- From `c`, hearing the frames that `bytes` complete leads to `d`, without failure. -/
structure Hears (c : Connection X Y) (bytes : Bytes) (d : Connection X Y) : Prop where
  fault : (c.buffer.feed bytes).drain.fault = none
  result : (c.session.hearAll (c.buffer.feed bytes).drain.frames).result = .ok ()
  session : d.session = (c.session.hearAll (c.buffer.feed bytes).drain.frames).next
  news : Event.news d.outbox.events = Event.news c.outbox.events ++
    Event.news (c.session.hearAll (c.buffer.feed bytes).drain.frames).output.events

/-- A connection over an open transport that has the peer's handshake. -/
structure IsListening (c : Connection X Y) : Prop where
  up : c.isDown = false
  received : c.state.handshakeReceived = true
  connected : c.transport.connected = true

theorem GoesOn.hears {bytes : Bytes} (hreceived : c.state.handshakeReceived = true)
    (h : GoesOn c bytes d) : Hears c bytes d := by
  obtain ⟨hfailure, hsession, houtput, -⟩ :=
    Listener.listen_of_received c.session hreceived (c.buffer.feed bytes)
  have hnone := hfailure.symm.trans (Reply.failure?_eq_none_iff.mpr h.result)
  obtain ⟨hheard, hfault⟩ := Option.or_eq_none_iff.mp hnone
  refine ⟨hfault, Reply.failure?_eq_none_iff.mp hheard, ?_, ?_⟩
  · exact (congrArg Listener.session h.listener).trans hsession
  · rw [← houtput]
    exact h.news

/-- Rounds after which the connection is up hear all that was delivered. -/
theorem IsListening.processAll_hears (hc : c.IsListening)
    (hwaits : c.buffer.nextFrame = .ok none) {times : List Nat}
    (hup : (c.processAll times).isDown = false) :
    Hears c (c.delivered times) (c.processAll times) ∧ (c.processAll times).IsOpen := by
  have hopen : c.IsOpen := ⟨hc.up, hc.connected⟩
  have hitem : c.listener.nextItem = .ok none :=
    (Listener.nextItem_eq_none_iff hc.received).mpr hwaits
  obtain ⟨hgoes, hend⟩ := hopen.processAll_goesOn hitem hup
  exact ⟨hgoes.hears hc.received, hend⟩

/-! ## Between calls -/

/-- As long as the connection is up, nothing that is complete waits in the buffer. -/
def IsWaiting (c : Connection X Y) : Prop :=
  c.isDown = false → c.listener.nextItem = .ok none

theorem IsWaiting.process (h : c.IsWaiting) (now : Nat) : (c.process now).1.IsWaiting := by
  rw [Connection.process]
  split
  · exact h
  · split
    · split
      · exact h
      · intro hup
        rw [isDown_teardown] at hup
        cases hup
    · split
      · next d hd => exact fun _ => (poll_goesOn hd).2.1.nextItem
      · next d failure hd =>
        intro hup
        rw [isDown_teardown] at hup
        cases hup

/-- The owner does not touch the buffer of a connection that stays up. -/
theorem OwnerStep.keeps_buffer (h : OwnerStep c d) (hup : d.isDown = false) :
    c.isDown = false ∧ d.state.handshakeReceived = c.state.handshakeReceived ∧
      d.buffer = c.buffer := by
  cases h with
  | useTransport transport hwritten => exact ⟨hup, rfl, rfl⟩
  | opened hlive => exact ⟨hlive, rfl, rfl⟩
  | addModule m hsent => exact ⟨hup, rfl, rfl⟩
  | setPieceCount count => exact ⟨hup, rfl, rfl⟩
  | takeEvents events hevents => exact ⟨hup, rfl, rfl⟩
  | pick picker => exact ⟨hup, rfl, rfl⟩
  | send now message hlive =>
    refine ⟨hlive, congrArg Standing.handshakeReceived (standing_send c now message), ?_⟩
    rw [Connection.send]
    split <;> rfl
  | sendFromRegistry hsent =>
    obtain ⟨reply, hused⟩ := exists_settle_of_sendFromRegistry? hsent
    rw [hused] at hup ⊢
    exact ⟨hup, rfl, rfl⟩
  | sendPeerExchange hsent =>
    obtain ⟨reply, hused⟩ := exists_settle_of_sendPeerExchange? hsent
    rw [hused] at hup ⊢
    exact ⟨hup, rfl, rfl⟩
  | grantAllowedFast hgranted =>
    obtain ⟨reply, hused⟩ := exists_settle_of_grantAllowedFast? hgranted
    rw [hused] at hup ⊢
    exact ⟨hup, rfl, rfl⟩
  | introduce handshake hlive hsent => exact ⟨hlive, rfl, rfl⟩
  | teardown hlive =>
    rw [isDown_teardown] at hup
    cases hup

theorem IsWaiting.ownerSteps (h : c.IsWaiting) (hsteps : OwnerSteps c d) : d.IsWaiting := by
  induction hsteps with
  | refl => exact h
  | @tail d e _ hstep ih =>
    intro hup
    obtain ⟨hlive, hsame, hbuffer⟩ := hstep.keeps_buffer hup
    have hitem : e.listener.nextItem = d.listener.nextItem :=
      Listener.nextItem_congr hsame hbuffer
    exact hitem.trans (ih hlive)

theorem IsWaiting.greet (h : c.IsWaiting) (hup : c.isDown = false) (infoHash : Digest)
    (peerId : PeerId) : (c.greet infoHash peerId).IsWaiting := by
  have hstanding := congrArg Standing.handshakeReceived (standing_greet c infoHash peerId)
  rw [Standing.greet, Standing.handshakeReceived_advancePhase] at hstanding
  have hitem : (c.greet infoHash peerId).listener.nextItem = c.listener.nextItem :=
    Listener.nextItem_congr hstanding rfl
  exact fun _ => hitem.trans (h hup)

theorem IsWaiting.play (h : c.IsWaiting) (moves : List (Move X Y)) :
    (c.play moves).IsWaiting := by
  induction moves using List.reverseRecOn with
  | nil => exact h
  | append_singleton moves m ih =>
    rw [play_concat]
    by_cases hm : ∃ now, m = .call now .process
    · obtain ⟨now, rfl⟩ := hm
      exact ih.process now
    · rcases move_ownerSteps (c.play moves) (not_exists.mp hm) with
        hsteps | ⟨infoHash, peerId, hup, -, hsteps⟩
      · exact ih.ownerSteps hsteps
      · exact (ih.greet hup infoHash peerId).ownerSteps hsteps

end Connection
end PeerLink
