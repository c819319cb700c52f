import PeerLink.Proofs.Connection.Hearing
import PeerLink.Proofs.Connection.Step
import PeerLink.Proofs.Module.Output
import PeerLink.Proofs.Wire.Exactness

/-!
# Listening to bytes

A session takes items off the bytes that wait for it as they become complete: the
peer's handshake first, and then frames.  `Listener.listen` takes all that are
complete, up to the first that is refused.  Bytes that arrive later can be listened to
later: that is `Listener.listen_feed`, and it makes the grouping of bytes into rounds
immaterial.  `consume_takesIn` says that a connection listens in this way.
-/

namespace PeerLink

namespace Reply

variable {σ α : Type}

/-- Why the callback failed, if it did. -/
def failure? (reply : Reply σ α) : Option Failure :=
  match reply.result with
  | .ok _ => none
  | .error failure => some failure

theorem failure?_eq_none_iff {reply : Reply σ Unit} :
    reply.failure? = none ↔ reply.result = .ok () := by
  rw [failure?]
  cases reply.result <;> simp

theorem failure?_eq_some_iff {reply : Reply σ α} {failure : Failure} :
    reply.failure? = some failure ↔ reply.result = .error failure := by
  rw [failure?]
  cases reply.result <;> simp

/-- Goes on where a callback left off, unless it failed. -/
def andThen (reply : Reply σ Unit) (next : σ → Reply σ Unit) : Reply σ Unit :=
  match reply.result with
  | .error failure => .fail reply.next failure reply.output
  | .ok () => (next reply.next).after reply.output

theorem andThen_of_ok {reply : Reply σ Unit} (h : reply.result = .ok ())
    (next : σ → Reply σ Unit) :
    reply.andThen next = (next reply.next).after reply.output := by
  simp only [andThen, h]

theorem andThen_of_error {reply : Reply σ Unit} {failure : Failure}
    (h : reply.result = .error failure) (next : σ → Reply σ Unit) : reply.andThen next = reply := by
  simp only [andThen, h]
  rw [fail, ← h]

theorem after_andThen (output : Output) (reply : Reply σ Unit) (next : σ → Reply σ Unit) :
    (reply.after output).andThen next = (reply.andThen next).after output := by
  cases hresult : reply.result with
  | error failure =>
    have hafter : (reply.after output).result = .error failure := hresult
    rw [andThen_of_error hafter, andThen_of_error hresult]
  | ok =>
    have hafter : (reply.after output).result = .ok () := hresult
    rw [andThen_of_ok hafter, andThen_of_ok hresult, after_after]
    rfl

end Reply

/-- What a peer sends. -/
inductive Item where
  | handshake (handshake : Handshake)
  | frame (frame : Frame)

namespace Session

variable {X Y : Type}

/-- Takes the peer's handshake, unless it is for something else. -/
def accept (session : Session X Y) (handshake : Handshake) : Reply (Session X Y) Unit :=
  if session.state.infoHash.any (· != handshake.infoHash) then
    .fail session .infoHashMismatch .none
  else
    .ok { session with
      state := ConnectionState.advancePhase { session.state with
        remotePeerId := some handshake.peerId
        remoteReserved := some handshake.reserved
        handshakeReceived := true } } ()
      (.ofEvent (.handshakeComplete handshake.peerId handshake.reserved))

/-- A handshake of the peer is refused, or it leaves the modules and our info hash alone. -/
theorem accept_cases (session : Session X Y) (handshake : Handshake) :
    (∃ failure, session.accept handshake = .fail session failure .none) ∨
      ∃ next, session.accept handshake =
          .ok next () (.ofEvent (.handshakeComplete handshake.peerId handshake.reserved)) ∧
        next.modules = session.modules ∧ next.state.infoHash = session.state.infoHash ∧
        next.state.handshakeReceived = true := by
  by_cases hother : session.state.infoHash.any (· != handshake.infoHash) = true
  · left
    exact ⟨.infoHashMismatch, if_pos hother⟩
  · right
    refine ⟨_, if_neg hother, rfl, ?_⟩
    have hstanding := ConnectionState.standing_advancePhase { session.state with
      remotePeerId := some handshake.peerId
      remoteReserved := some handshake.reserved
      handshakeReceived := true }
    rw [Standing.advancePhase_eq] at hstanding
    exact ⟨congrArg Standing.infoHash hstanding, congrArg Standing.handshakeReceived hstanding⟩

variable [Capability X] [SubProtocol Y]

/-- What one item does. -/
def take (session : Session X Y) : Item → Reply (Session X Y) Unit
  | .handshake handshake => session.accept handshake
  | .frame frame => session.hear frame

theorem standing_hear (session : Session X Y) (frame : Frame) :
    (session.hear frame).next.state.standing = session.state.standing := by
  have htell : ∀ event, (session.tell event).next.state.standing = session.state.standing :=
    ConnectionState.standing_observe session.state
  cases frame with
  | keepAlive => exact htell _
  | message command length payload =>
    rw [hear]
    split
    · exact htell _
    · split
      · exact htell _
      · rfl
      · rw [offer]
        split
        · rfl
        · exact ConnectionState.standing_observeAll session.state _
        · rfl

end Session

/-- A session, and the bytes that wait for it. -/
structure Listener (X Y : Type) where
  session : Session X Y
  buffer : Reassembly

namespace Listener

variable {X Y : Type}

def feed (listener : Listener X Y) (bytes : Bytes) : Listener X Y :=
  { listener with buffer := listener.buffer.feed bytes }

/-- The next item, once all of it is there. -/
def nextItem (listener : Listener X Y) : Except Failure (Option (Item × Reassembly)) :=
  if listener.session.state.handshakeReceived then
    match listener.buffer.nextFrame with
    | .error failure => .error failure
    | .ok none => .ok none
    | .ok (some (frame, rest)) => .ok (some (.frame frame, rest))
  else
    match listener.buffer.takeHandshake with
    | .error failure => .error failure
    | .ok none => .ok none
    | .ok (some (handshake, rest)) => .ok (some (.handshake handshake, rest))

/-- The frames that are complete. -/
def frames {X Y : Type} (listener : Listener X Y) : List Frame :=
  if listener.session.state.handshakeReceived then listener.buffer.drain.frames
  else match listener.buffer.takeHandshake with
    | .ok (some (_, rest)) => rest.drain.frames
    | _ => []

@[simp]
theorem feed_nil (listener : Listener X Y) : listener.feed [] = listener := by
  rw [feed, Reassembly.feed_nil]

theorem feed_append (listener : Listener X Y) (first second : Bytes) :
    listener.feed (first ++ second) = (listener.feed first).feed second := by
  rw [feed, Reassembly.feed_append]
  rfl

variable {listener : Listener X Y} {item : Item} {rest : Reassembly} {failure : Failure}

/-- Of the session, only the handshake of the peer matters for what comes next. -/
theorem nextItem_congr {other : Listener X Y}
    (hreceived : listener.session.state.handshakeReceived =
      other.session.state.handshakeReceived)
    (hbuffer : listener.buffer = other.buffer) : listener.nextItem = other.nextItem := by
  rw [nextItem, nextItem, hreceived, hbuffer]

/-- Behind the peer's handshake, only frames can wait. -/
theorem nextItem_eq_none_iff (hreceived : listener.session.state.handshakeReceived = true) :
    listener.nextItem = .ok none ↔ listener.buffer.nextFrame = .ok none := by
  rw [nextItem, if_pos hreceived]
  split
  · next h => simp [h]
  · next h => simp [h]
  · next h => simp [h]

/-- In front of it, only the handshake itself can. -/
theorem nextItem_eq_none_iff_takeHandshake
    (hreceived : listener.session.state.handshakeReceived = false) :
    listener.nextItem = .ok none ↔ listener.buffer.takeHandshake = .ok none := by
  rw [nextItem, hreceived, if_neg Bool.false_ne_true]
  split
  · next h => simp [h]
  · next h => simp [h]
  · next h => simp [h]

theorem length_lt_of_nextItem (h : listener.nextItem = .ok (some (item, rest))) :
    rest.bytes.length < listener.buffer.bytes.length := by
  rw [nextItem] at h
  split at h
  · split at h
    · cases h
    · cases h
    · next hnext =>
      obtain ⟨-, rfl⟩ := Prod.mk.inj (Option.some.inj (Except.ok.inj h))
      exact Reassembly.length_lt_of_nextFrame hnext
  · split at h
    · cases h
    · cases h
    · next htaken =>
      obtain ⟨-, rfl⟩ := Prod.mk.inj (Option.some.inj (Except.ok.inj h))
      exact Reassembly.length_lt_of_takeHandshake htaken

theorem nextItem_feed (h : listener.nextItem = .ok (some (item, rest))) (later : Bytes) :
    (listener.feed later).nextItem = .ok (some (item, rest.feed later)) := by
  rw [nextItem] at h
  split at h
  · next hreceived =>
    split at h
    · cases h
    · cases h
    · next hnext =>
      obtain ⟨rfl, rfl⟩ := Prod.mk.inj (Option.some.inj (Except.ok.inj h))
      simp [nextItem, feed, hreceived, Reassembly.nextFrame_feed hnext later]
  · next hreceived =>
    split at h
    · cases h
    · cases h
    · next htaken =>
      obtain ⟨rfl, rfl⟩ := Prod.mk.inj (Option.some.inj (Except.ok.inj h))
      simp [nextItem, feed, hreceived, Reassembly.takeHandshake_feed htaken later]

theorem nextItem_feed_of_error (h : listener.nextItem = .error failure) (later : Bytes) :
    (listener.feed later).nextItem = .error failure := by
  rw [nextItem] at h
  split at h
  · next hreceived =>
    split at h
    · next hnext =>
      obtain rfl := Except.error.inj h
      simp [nextItem, feed, hreceived, Reassembly.nextFrame_feed_of_error hnext later]
    · cases h
    · cases h
  · next hreceived =>
    split at h
    · next htaken =>
      obtain rfl := Except.error.inj h
      simp [nextItem, feed, hreceived, Reassembly.takeHandshake_feed_of_error htaken later]
    · cases h
    · cases h

theorem limit_of_nextItem (h : listener.nextItem = .ok (some (item, rest))) :
    rest.limit = listener.buffer.limit := by
  rw [nextItem] at h
  split at h
  · split at h
    · cases h
    · cases h
    · next hnext =>
      obtain ⟨-, rfl⟩ := Prod.mk.inj (Option.some.inj (Except.ok.inj h))
      exact (Reassembly.eq_of_nextFrame hnext).2.2
  · split at h
    · cases h
    · cases h
    · next htaken =>
      obtain ⟨-, rfl⟩ := Prod.mk.inj (Option.some.inj (Except.ok.inj h))
      exact (Reassembly.takeHandshake_eq_some_iff.mp htaken).2

variable [Capability X] [SubProtocol Y]

/-- Takes all items that are complete, up to and including the first that is refused.
Nothing behind that one is kept. -/
def listen (listener : Listener X Y) : Reply (Listener X Y) Unit :=
  match h : listener.nextItem with
  | .error failure => .fail ⟨listener.session, listener.buffer.clear⟩ failure .none
  | .ok none => .ok listener () .none
  | .ok (some (item, rest)) =>
    have := length_lt_of_nextItem h
    let first := listener.session.take item
    match first.result with
    | .error failure => .fail ⟨first.next, rest.clear⟩ failure first.output
    | .ok () => (listen ⟨first.next, rest⟩).after first.output
termination_by listener.buffer.bytes.length

theorem listen_of_error (h : listener.nextItem = .error failure) :
    listener.listen = .fail ⟨listener.session, listener.buffer.clear⟩ failure .none := by
  rw [listen]
  split
  · next hnext =>
    rw [h] at hnext
    obtain rfl := Except.error.inj hnext
    rfl
  · next hnext => rw [h] at hnext; cases hnext
  · next hnext => rw [h] at hnext; cases hnext

theorem listen_of_none (h : listener.nextItem = .ok none) :
    listener.listen = .ok listener () .none := by
  rw [listen]
  split
  · next hnext => rw [h] at hnext; cases hnext
  · rfl
  · next hnext => rw [h] at hnext; cases hnext

theorem listen_of_refused (h : listener.nextItem = .ok (some (item, rest)))
    (hrefused : (listener.session.take item).result = .error failure) :
    listener.listen = .fail ⟨(listener.session.take item).next, rest.clear⟩ failure
      (listener.session.take item).output := by
  rw [listen]
  split
  · next hnext => rw [h] at hnext; cases hnext
  · next hnext => rw [h] at hnext; cases hnext
  · next hnext =>
    rw [h] at hnext
    cases hnext
    simp only [hrefused]

theorem listen_of_taken (h : listener.nextItem = .ok (some (item, rest)))
    (htaken : (listener.session.take item).result = .ok ()) :
    listener.listen = (listen ⟨(listener.session.take item).next, rest⟩).after
      (listener.session.take item).output := by
  rw [listen]
  split
  · next hnext => rw [h] at hnext; cases hnext
  · next hnext => rw [h] at hnext; cases hnext
  · next hnext =>
    rw [h] at hnext
    cases hnext
    simp only [htaken]

/-- Listening before more bytes arrive makes no difference. -/
theorem listen_feed (listener : Listener X Y) (later : Bytes) :
    (listener.feed later).listen =
      listener.listen.andThen fun next => (next.feed later).listen := by
  -- What is next stays next, and what is refused stays refused, when more bytes arrive.
  induction listener using listen.induct with
  | case1 listener failure hnext =>
    rw [listen_of_error hnext, listen_of_error (nextItem_feed_of_error hnext later)]
    rfl
  | case2 listener hnext =>
    rw [listen_of_none hnext]
    exact (Reply.after_none _).symm
  | case3 listener item rest hnext hlt first failure hrefused =>
    have hmore := nextItem_feed hnext later
    rw [listen_of_refused hnext hrefused, listen_of_refused hmore hrefused]
    rfl
  | case4 listener item rest hnext hlt first htaken ih =>
    have hmore := nextItem_feed hnext later
    rw [listen_of_taken hnext htaken, listen_of_taken hmore htaken, Reply.after_andThen, ← ih]
    rfl

/-! ## Behind the handshake -/

/-- Behind the peer's handshake, listening is hearing the frames that can be drained. -/
theorem listen_of_received (session : Session X Y)
    (hreceived : session.state.handshakeReceived = true) (buffer : Reassembly) :
    let reply := listen ⟨session, buffer⟩
    let heard := session.hearAll buffer.drain.frames
    reply.failure? = heard.failure?.or buffer.drain.fault ∧ reply.next.session = heard.next ∧
      reply.output = heard.output ∧
      (reply.result = .ok () → reply.next.buffer = buffer.drain.rest) := by
  induction buffer using Reassembly.drain.induct generalizing session with
  | case1 buffer failure hnext =>
    have hitem : nextItem ⟨session, buffer⟩ = .error failure := by
      simp [nextItem, hreceived, hnext]
    rw [listen_of_error hitem, Reassembly.drain_of_nextFrame_error hnext]
    refine ⟨rfl, rfl, rfl, ?_⟩
    intro h
    cases h
  | case2 buffer hnext =>
    have hitem : nextItem ⟨session, buffer⟩ = .ok none := by
      simp [nextItem, hreceived, hnext]
    rw [listen_of_none hitem, Reassembly.drain_of_nextFrame_none hnext]
    exact ⟨rfl, rfl, rfl, fun _ => rfl⟩
  | case3 buffer frame rest hnext hlt ih =>
    have hitem : nextItem ⟨session, buffer⟩ = .ok (some (.frame frame, rest)) := by
      simp [nextItem, hreceived, hnext]
    rw [Reassembly.drain_of_nextFrame_some hnext]
    cases hframe : (session.hear frame).result with
    | error failure =>
      rw [listen_of_refused hitem hframe, Session.hearAll_cons_of_error hframe]
      refine ⟨rfl, rfl, rfl, ?_⟩
      intro h
      cases h
    | ok =>
      have hstanding := session.standing_hear frame
      have hstill : (session.hear frame).next.state.handshakeReceived = true :=
        (congrArg Standing.handshakeReceived hstanding).trans hreceived
      obtain ⟨hfailure, hsession, houtput, hbuffer⟩ := ih _ hstill
      rw [listen_of_taken hitem hframe, Session.hearAll_cons_of_ok hframe]
      exact ⟨hfailure, hsession, congrArg ((session.hear frame).output ++ ·) houtput, hbuffer⟩

/-- When all items are taken, no complete one is left. -/
theorem nextItem_listen (h : listener.listen.result = .ok ()) :
    listener.listen.next.nextItem = .ok none := by
  induction listener using listen.induct with
  | case1 listener failure hnext =>
    rw [listen_of_error hnext] at h
    cases h
  | case2 listener hnext =>
    rw [listen_of_none hnext]
    exact hnext
  | case3 listener item rest hnext hlt first failure hrefused =>
    rw [listen_of_refused hnext hrefused] at h
    cases h
  | case4 listener item rest hnext hlt first htaken ih =>
    rw [listen_of_taken hnext htaken] at h ⊢
    exact ih h

/-- Nothing that comes in changes how long a frame may be. -/
theorem limit_listen (listener : Listener X Y) :
    listener.listen.next.buffer.limit = listener.buffer.limit := by
  induction listener using listen.induct with
  | case1 listener failure hnext =>
    rw [listen_of_error hnext]
    rfl
  | case2 listener hnext =>
    rw [listen_of_none hnext]
    rfl
  | case3 listener item rest hnext hlt first failure hrefused =>
    have hlimit := limit_of_nextItem hnext
    rw [listen_of_refused hnext hrefused]
    exact hlimit
  | case4 listener item rest hnext hlt first htaken ih =>
    rw [listen_of_taken hnext htaken]
    exact ih.trans (limit_of_nextItem hnext)

/-- Listening that refuses nothing accepts the handshake of the peer if it waits for it and
it is there, and hears the frames that are complete. -/
theorem exists_opened_of_listen (h : listener.listen.result = .ok ()) :
    ∃ opened opening, (opened = listener.session ∧ opening = .none ∨
        ∃ handshake, listener.session.accept handshake = .ok opened () opening) ∧
      (opened.hearAll listener.frames).result = .ok () ∧
      listener.listen.next.session = (opened.hearAll listener.frames).next ∧
      listener.listen.output = opening ++ (opened.hearAll listener.frames).output := by
  by_cases hreceived : listener.session.state.handshakeReceived = true
  · obtain ⟨hfailure, hsession, houtput, -⟩ :=
      listen_of_received listener.session hreceived listener.buffer
    have hframes : listener.frames = listener.buffer.drain.frames := if_pos hreceived
    have hnone := hfailure.symm.trans (Reply.failure?_eq_none_iff.mpr h)
    rw [hframes]
    exact ⟨listener.session, .none, .inl ⟨rfl, rfl⟩,
      Reply.failure?_eq_none_iff.mp (Option.or_eq_none_iff.mp hnone).1, hsession, houtput⟩
  · cases htaken : listener.buffer.takeHandshake with
    | error failure =>
      have hitem : listener.nextItem = .error failure := by
        rw [nextItem, if_neg hreceived, htaken]
      rw [listen_of_error hitem] at h
      cases h
    | ok taken? =>
      cases taken? with
      | none =>
        have hitem : listener.nextItem = .ok none := by
          rw [nextItem, if_neg hreceived, htaken]
        have hframes : listener.frames = [] := by rw [frames, if_neg hreceived, htaken]
        rw [listen_of_none hitem, hframes]
        exact ⟨listener.session, .none, .inl ⟨rfl, rfl⟩, rfl, rfl, rfl⟩
      | some taken =>
        obtain ⟨handshake, rest⟩ := taken
        have hitem : listener.nextItem = .ok (some (.handshake handshake, rest)) := by
          rw [nextItem, if_neg hreceived, htaken]
        have hframes : listener.frames = rest.drain.frames := by
          rw [frames, if_neg hreceived, htaken]
        rw [hframes]
        rcases listener.session.accept_cases handshake with
          ⟨failure, haccept⟩ | ⟨next, haccept, -, -, hnow⟩
        · rw [listen_of_refused hitem (congrArg Reply.result haccept)] at h
          cases h
        · have hnext : (listener.session.take (.handshake handshake)).next = next :=
            congrArg Reply.next haccept
          have hopening : (listener.session.take (.handshake handshake)).output =
              .ofEvent (.handshakeComplete handshake.peerId handshake.reserved) :=
            congrArg Reply.output haccept
          rw [listen_of_taken hitem (congrArg Reply.result haccept), hnext, hopening] at h ⊢
          obtain ⟨hfailure, hsession, houtput, -⟩ := listen_of_received next hnow rest
          have hlater : (listen ⟨next, rest⟩).result = .ok () := h
          have hnone := hfailure.symm.trans (Reply.failure?_eq_none_iff.mpr hlater)
          exact ⟨next, _, .inr ⟨handshake, haccept⟩,
            Reply.failure?_eq_none_iff.mp (Option.or_eq_none_iff.mp hnone).1, hsession,
            congrArg (_ ++ ·) houtput⟩

end Listener

/-! ## What listening queues -/

section Output

variable {X Y : Type} [Capability X] [SubProtocol Y] {A : Output → Prop}
  (hA : Output.Admits A) (hX : Capability.Queues A X) (hY : SubProtocol.Queues A Y)
include hA hX hY

/-- What a frame of the peer makes a session queue has the property if what modules queue
has it, and the events that are read off frames. -/
theorem Session.output_hear (hread : ∀ event : Event, event.IsInbound → A (.ofEvent event))
    (session : Session X Y) (frame : Frame) : A (session.hear frame).output := by
  cases frame with
  | keepAlive => exact hread .keepAlive trivial
  | message command length payload =>
    have hoffer := (AnyModule.queues hA hX hY).offer hA.toAdmitsMessages session.state command
      payload session.modules
    rw [Session.hear]
    split
    · next event hflag =>
      obtain ⟨known, -, hflag⟩ := Option.bind_eq_some_iff.mp hflag
      exact hread event (Inbound.isInbound_of_flag? hflag)
    · split
      · next event hread' => exact hread event (Inbound.isInbound_of_read? hread')
      · exact hA.none
      · rw [Session.offer]
        split
        · exact hoffer
        · exact hoffer
        · exact hoffer

theorem Listener.output_listen (hevent : ∀ event : Event, A (.ofEvent event))
    (listener : Listener X Y) : A listener.listen.output := by
  have htake : ∀ (session : Session X Y) item, A (session.take item).output := by
    intro session item
    cases item with
    | frame frame =>
      exact Session.output_hear hA hX hY (fun event _ => hevent event) session frame
    | handshake handshake =>
      rcases session.accept_cases handshake with ⟨failure, haccept⟩ | ⟨next, haccept, -⟩
      · rw [Session.take, haccept]
        exact hA.none
      · rw [Session.take, haccept]
        exact hevent _
  induction listener using Listener.listen.induct with
  | case1 listener failure hnext =>
    rw [Listener.listen_of_error hnext]
    exact hA.none
  | case2 listener hnext =>
    rw [Listener.listen_of_none hnext]
    exact hA.none
  | case3 listener item rest hnext hlt first failure hrefused =>
    rw [Listener.listen_of_refused hnext hrefused]
    exact htake listener.session item
  | case4 listener item rest hnext hlt first htaken ih =>
    rw [Listener.listen_of_taken hnext htaken]
    exact hA.append (htake listener.session item) ih

end Output

namespace Connection

variable {X Y : Type}

/-- The part of a connection that listens. -/
def listener (c : Connection X Y) : Listener X Y := ⟨c.session, c.buffer⟩

/-- What is left of `c`, and why it failed if it did, is what `reply` says. -/
structure TakesIn (c : Connection X Y) (reply : Reply (Listener X Y) Unit)
    (outcome : Connection X Y × Option Failure) : Prop where
  failure : outcome.2 = reply.failure?
  session : outcome.1.session = reply.next.session
  buffer : reply.result = .ok () → outcome.1.buffer = reply.next.buffer
  outbox : outcome.1.outbox = c.outbox.add reply.output
  transport : outcome.1.transport = c.transport

variable {c d : Connection X Y}

/-- What is left in the buffer matters only if nothing failed. -/
theorem TakesIn.of_failure {reply : Reply (Listener X Y) Unit} {failure : Failure}
    (hresult : reply.result = .error failure) (hsession : d.session = reply.next.session)
    (houtbox : d.outbox = c.outbox.add reply.output) (htransport : d.transport = c.transport) :
    TakesIn c reply (d, some failure) := by
  refine ⟨(Reply.failure?_eq_some_iff.mpr hresult).symm, hsession, ?_, houtbox, htransport⟩
  intro hok
  rw [hresult] at hok
  cases hok

theorem acceptHandshake_takesIn (c : Connection X Y) (handshake : Handshake) :
    TakesIn c ((c.session.accept handshake).mapNext (⟨·, c.buffer⟩))
      (c.acceptHandshake handshake) := by
  by_cases hother : c.state.infoHash.any (· != handshake.infoHash) = true
  · have haccept : c.session.accept handshake = .fail c.session .infoHashMismatch .none :=
      if_pos hother
    rw [haccept, acceptHandshake, if_pos hother]
    exact .of_failure rfl rfl (Outbox.add_none _).symm rfl
  · have haccept : c.session.accept handshake = .ok ⟨_, c.modules⟩ () (.ofEvent _) :=
      if_neg hother
    rw [haccept, acceptHandshake, if_neg hother]
    exact ⟨rfl, rfl, fun _ => rfl, (Outbox.add_ofEvent _ _).symm, rfl⟩

theorem absorb_failure (c : Connection X Y) (reply : Reply (Session X Y) Unit) :
    (c.absorb reply).2 = reply.failure? := by
  cases hresult : reply.result with
  | ok => simp [absorb, Reply.failure?, hresult]
  | error failure => simp [absorb, Reply.failure?, hresult]

variable [Capability X] [SubProtocol Y]

theorem consumeFrames_takesIn (hreceived : c.state.handshakeReceived = true) :
    TakesIn c c.listener.listen c.consumeFrames := by
  obtain ⟨hfailure, hsession, houtput, hbuffer⟩ :=
    Listener.listen_of_received c.session hreceived c.buffer
  let drained : Connection X Y := { c with buffer := c.buffer.drain.rest }
  let heard : Reply (Session X Y) Unit := c.session.hearAll c.buffer.drain.frames
  have hconsume : c.consumeFrames =
      ((drained.absorb heard).1, (drained.absorb heard).2.or c.buffer.drain.fault) := by
    rw [consumeFrames]
    change _ = ((drained.absorb (drained.session.hearAll c.buffer.drain.frames)).1,
      (drained.absorb (drained.session.hearAll c.buffer.drain.frames)).2.or _)
    rw [← dispatchAll_eq_absorb]
    split
    · next d failure hd =>
      rw [hd]
      rfl
    · next d hd =>
      rw [hd]
      rfl
  rw [hconsume, absorb_failure]
  refine ⟨hfailure.symm, hsession.symm, fun hok => (hbuffer hok).symm, ?_, rfl⟩
  exact congrArg c.outbox.add houtput.symm

/-- Looking at what was read is listening to it. -/
theorem consume_takesIn (c : Connection X Y) : TakesIn c c.listener.listen c.consume := by
  rw [consume]
  split
  · next hreceived => exact consumeFrames_takesIn hreceived
  · next hreceived =>
    split
    · next failure htaken =>
      have hitem : c.listener.nextItem = .error failure := by
        simp [Listener.nextItem, listener, session, hreceived, htaken]
      rw [Listener.listen_of_error hitem]
      exact .of_failure rfl rfl (Outbox.add_none _).symm rfl
    · next htaken =>
      have hitem : c.listener.nextItem = .ok none := by
        simp [Listener.nextItem, listener, session, hreceived, htaken]
      rw [Listener.listen_of_none hitem]
      exact ⟨rfl, rfl, fun _ => rfl, (Outbox.add_none _).symm, rfl⟩
    · next handshake buffer htaken =>
      have hitem : c.listener.nextItem = .ok (some (.handshake handshake, buffer)) := by
        simp [Listener.nextItem, listener, session, hreceived, htaken]
      have haccept := acceptHandshake_takesIn { c with buffer } handshake
      split
      · next d failure hd =>
        rw [hd] at haccept
        have hrefused : (c.session.accept handshake).result = .error failure :=
          Reply.failure?_eq_some_iff.mp haccept.failure.symm
        rw [Listener.listen_of_refused hitem hrefused]
        exact .of_failure rfl haccept.session haccept.outbox haccept.transport
      · next d hd =>
        rw [hd] at haccept
        have htaken : (c.session.accept handshake).result = .ok () :=
          Reply.failure?_eq_none_iff.mp haccept.failure.symm
        have hlistener : d.listener = ⟨(c.session.accept handshake).next, buffer⟩ := by
          rw [listener, haccept.session, haccept.buffer htaken]
          rfl
        have hlater := consumeFrames_takesIn (acceptHandshake_received hd)
        rw [hlistener] at hlater
        rw [Listener.listen_of_taken hitem htaken]
        refine ⟨hlater.failure, hlater.session, hlater.buffer, ?_,
          hlater.transport.trans haccept.transport⟩
        rw [hlater.outbox, haccept.outbox]
        exact (Outbox.add_append c.outbox _ _).symm

end Connection
end PeerLink
