import PeerLink.Connection.Query
import PeerLink.Proofs.Connection.Finality
import PeerLink.Proofs.Connection.Round
import PeerLink.Proofs.Module.Offering

/-!
# Metadata on a connection

The exchange of a connection is called for frames of the peer, and ended with the
connection; nothing else reaches it.  So what holds of every run of calls holds in every
run of a connection, and the frames that came in say where metadata comes from.  The main
statement is `reports_verified_metadata_once`.
-/

namespace PeerLink

namespace Attends

variable {first second : List Seat} {infoHash : Option Digest} {frames : List Frame}
  {events : List Event}

/-- Frames that reach nothing make no difference. -/
theorem append_frames (h : Attends first infoHash frames second events) (more : List Frame) :
    Attends first infoHash (frames ++ more) second events := by
  obtain ⟨calls, hprompted, hundergoes⟩ := h
  obtain ⟨heard, hcalls, hframes⟩ := List.sublistForall₂_iff.mp hprompted
  have hmore : List.Sublist heard (frames ++ more) :=
    hframes.trans (List.sublist_append_left frames more)
  exact ⟨calls, List.sublistForall₂_iff.mpr ⟨heard, hcalls, hmore⟩, hundergoes⟩

end Attends

variable {X Y : Type}

/-! ## Seats of a connection -/

namespace Connection

variable {c d e : Connection X Y} {frames more : List Frame} {queue : List Event}

/-- The seats of the first registry. -/
def seats (c : Connection X Y) : List Seat := AnyModule.seats c.modules

/-- From `c` to `d` these frames are handed over, and `queue` is made up of the events of
`c` and those raised on the way. -/
def Hands (c : Connection X Y) (frames : List Frame) (queue : List Event) (d : Connection X Y) :
    Prop :=
  ∃ raised, queue = c.outbox.events ++ raised ∧
    Attends c.seats d.state.infoHash frames d.seats raised

theorem Hands.silent (hqueue : queue = c.outbox.events) (hseats : d.seats = c.seats) :
    Hands c frames queue d := by
  refine ⟨[], by rw [hqueue, List.append_nil], ?_⟩
  rw [hseats]
  exact .idle rfl

theorem Hands.trans (hsingle : IsSingle c.seats) (h : Hands c frames d.outbox.events d)
    (hkeeps : KeepsInfoHash d e) (h' : Hands d more queue e) :
    Hands c (frames ++ more) queue e := by
  obtain ⟨raised, hevents, hattends⟩ := h
  obtain ⟨news, hqueue, hlater⟩ := h'
  refine ⟨raised ++ news, ?_, (hattends.of_infoHash hkeeps).trans hsingle hlater⟩
  rw [hqueue, hevents, List.append_assoc]

theorem useModule?_seats {α : Type}
    {act : ConnectionState → AnyModule X Y → Option (Reply (AnyModule X Y) α)}
    {used : Connection X Y × Except Failure α} (h : c.useModule? act = some used)
    (hact : ∀ m reply, act c.state m = some reply → reply.next.seats? = m.seats?) :
    used.1.seats = c.seats := by
  obtain ⟨reply, hreply, hused⟩ := exists_settle_of_useModule? h
  rw [hused]
  exact AnyModule.seats_congr (Reply.map_next_first? hact hreply)

theorem useRegistry?_seats {α : Type}
    {act : ConnectionState → Registry Y → Reply (Registry Y) α}
    {used : Connection X Y × Except Failure α} (h : c.useRegistry? act = some used)
    (hact : ∀ registry, (act c.state registry).next.seats = registry.seats) :
    used.1.seats = c.seats := by
  refine useModule?_seats h ?_
  intro m reply hreply
  cases m with
  | registry registry =>
    obtain rfl := Option.some.inj hreply
    exact congrArg some (hact registry)
  | fast fast => cases hreply
  | custom m => cases hreply

theorem sendPeerExchange?_seats {message : PeerExchange}
    {sent : Connection X Y × Except Failure Unit} (h : c.sendPeerExchange? message = some sent) :
    sent.1.seats = c.seats := by
  have hsub : c.useSub? (AnySubProtocol.exchange? message) = some sent := h
  obtain ⟨result, hresult⟩ := exists_useRegistry?_of_useSub? hsub
  change (sent.1, result).1.seats = c.seats
  refine useRegistry?_seats hresult ?_
  intro registry
  split
  · next reply hreply => exact Registry.seats_exchange hreply
  · rfl

theorem SendStep.seats_eq (h : SendStep c d) : d.seats = c.seats := by
  cases h with
  | pick picker => rfl
  | send now message hup =>
    rw [Connection.send]
    split <;> rfl
  | sendFromRegistry hsent =>
    refine useRegistry?_seats hsent ?_
    intro registry
    change ((registry.context c.state _).send registry _).next.seats = _
    rw [MetadataExchange.next_send]
  | sendPeerExchange hsent => exact sendPeerExchange?_seats hsent
  | grantAllowedFast hgranted =>
    refine useModule?_seats hgranted ?_
    intro m reply hreply
    cases m with
    | fast fast =>
      obtain rfl := Option.some.inj hreply
      rfl
    | registry registry => cases hreply
    | custom m => cases hreply

theorem SendSteps.seats_eq (h : SendSteps c d) : d.seats = c.seats := by
  induction h with
  | refl => rfl
  | tail _ hstep ih => exact hstep.seats_eq.trans ih

end Connection

variable [Capability X] [SubProtocol Y]

/-! ## Hearing frames -/

namespace Session

omit [Capability X] [SubProtocol Y] in
theorem tell_attends (session : Session X Y) {event : Event} (hevent : event.metadata? = none)
    (frames : List Frame) :
    Attends (AnyModule.seats session.modules) session.state.infoHash frames
      (AnyModule.seats (session.tell event).next.modules) (session.tell event).output.events :=
  .idle (Event.reported_singleton hevent)

theorem offer_eq (session : Session X Y) (command : UInt8) (payload : Bytes) :
    let reply := Capability.offer session.state command payload session.modules
    (session.offer command payload).next.modules = reply.next ∧
      (session.offer command payload).output = reply.output := by
  rw [offer]
  dsimp only
  split
  · exact ⟨rfl, rfl⟩
  · exact ⟨rfl, rfl⟩
  · exact ⟨rfl, rfl⟩

theorem infoHash_hear (session : Session X Y) (frame : Frame) :
    (session.hear frame).next.state.infoHash = session.state.infoHash :=
  congrArg Standing.infoHash (session.standing_hear frame)

section Quiet

variable (hX : Capability.Queues Output.ReportsNothing X)
  (hY : SubProtocol.Queues Output.ReportsNothing Y)
include hX hY

theorem offer_attends {session : Session X Y} (hsingle : IsSingle (AnyModule.seats session.modules))
    (command : UInt8) (length : UInt32) (payload : Bytes) :
    Attends (AnyModule.seats session.modules) session.state.infoHash
      [.message command length payload]
      (AnyModule.seats (session.offer command payload).next.modules)
      (session.offer command payload).output.events := by
  obtain ⟨hmodules, houtput⟩ := session.offer_eq command payload
  rw [hmodules, houtput]
  by_cases hcommand : command = Command.extended.toByte
  · rw [hcommand]
    exact AnyModule.offer_extended hX hY hsingle session.state length payload
  · obtain ⟨hseats, hquiet⟩ :=
      AnyModule.offer_quiet hX hcommand session.state payload session.modules
    rw [AnyModule.seats_congr hseats]
    exact .idle hquiet

theorem hear_attends {session : Session X Y} (hsingle : IsSingle (AnyModule.seats session.modules))
    (frame : Frame) :
    Attends (AnyModule.seats session.modules) session.state.infoHash [frame]
      (AnyModule.seats (session.hear frame).next.modules) (session.hear frame).output.events := by
  cases frame with
  | keepAlive => exact session.tell_attends rfl _
  | message command length payload =>
    rw [hear]
    split
    · next event hflag =>
      obtain ⟨known, -, hflag⟩ := Option.bind_eq_some_iff.mp hflag
      exact session.tell_attends (Inbound.metadata?_of_flag? hflag) _
    · split
      · next event hread => exact session.tell_attends (Inbound.metadata?_of_read? hread) _
      · exact .idle rfl
      · exact offer_attends hX hY hsingle command length payload

theorem hearAll_attends {session : Session X Y}
    (hsingle : IsSingle (AnyModule.seats session.modules)) (frames : List Frame) :
    Attends (AnyModule.seats session.modules) session.state.infoHash frames
      (AnyModule.seats (session.hearAll frames).next.modules)
      (session.hearAll frames).output.events := by
  induction frames generalizing session with
  | nil => exact .idle rfl
  | cons frame rest ih =>
    have hfirst := hear_attends hX hY hsingle frame
    cases hframe : (session.hear frame).result with
    | error failure =>
      rw [hearAll_cons_of_error hframe]
      exact hfirst.append_frames rest
    | ok =>
      have hlater := ih (hfirst.isSingle hsingle)
      rw [infoHash_hear] at hlater
      rw [hearAll_cons_of_ok hframe]
      exact hfirst.trans hsingle hlater

end Quiet

end Session

namespace Listener

variable (hX : Capability.Queues Output.ReportsNothing X)
  (hY : SubProtocol.Queues Output.ReportsNothing Y)
include hX hY

theorem listen_attends_of_received {session : Session X Y}
    (hreceived : session.state.handshakeReceived = true)
    (hsingle : IsSingle (AnyModule.seats session.modules)) (buffer : Reassembly) :
    Attends (AnyModule.seats session.modules) session.state.infoHash buffer.drain.frames
      (AnyModule.seats (listen ⟨session, buffer⟩).next.session.modules)
      (listen ⟨session, buffer⟩).output.events := by
  obtain ⟨-, hsession, houtput, -⟩ := listen_of_received session hreceived buffer
  rw [hsession, houtput]
  exact Session.hearAll_attends hX hY hsingle buffer.drain.frames

theorem listen_attends {listener : Listener X Y}
    (hsingle : IsSingle (AnyModule.seats listener.session.modules)) :
    Attends (AnyModule.seats listener.session.modules) listener.session.state.infoHash
      listener.frames (AnyModule.seats listener.listen.next.session.modules)
      listener.listen.output.events := by
  by_cases hreceived : listener.session.state.handshakeReceived = true
  · rw [frames, if_pos hreceived]
    exact listen_attends_of_received hX hY hreceived hsingle listener.buffer
  · rw [frames, if_neg hreceived]
    split
    · next handshake rest htaken =>
      have hitem : listener.nextItem = .ok (some (.handshake handshake, rest)) := by
        rw [nextItem, if_neg hreceived, htaken]
      rcases listener.session.accept_cases handshake with
        ⟨failure, haccept⟩ | ⟨next, haccept, hmodules, hinfoHash, hnow⟩
      · have hrefused : (listener.session.take (.handshake handshake)).result = .error failure :=
          congrArg Reply.result haccept
        have hnext : (listener.session.take (.handshake handshake)).next = listener.session :=
          congrArg Reply.next haccept
        have houtput : (listener.session.take (.handshake handshake)).output = .none :=
          congrArg Reply.output haccept
        rw [listen_of_refused hitem hrefused, hnext, houtput]
        exact .idle rfl
      · have htaken : (listener.session.take (.handshake handshake)).result = .ok () :=
          congrArg Reply.result haccept
        have hnext : (listener.session.take (.handshake handshake)).next = next :=
          congrArg Reply.next haccept
        have houtput : (listener.session.take (.handshake handshake)).output =
            .ofEvent (.handshakeComplete handshake.peerId handshake.reserved) :=
          congrArg Reply.output haccept
        rw [← hmodules] at hsingle ⊢
        rw [listen_of_taken hitem htaken, hnext, houtput, ← hinfoHash]
        have hlater := listen_attends_of_received hX hY hnow hsingle rest
        have hfirst : Attends (AnyModule.seats next.modules) next.state.infoHash []
            (AnyModule.seats next.modules)
            [.handshakeComplete handshake.peerId handshake.reserved] := .idle rfl
        exact hfirst.trans hsingle hlater
    · next hnone =>
      cases htaken : listener.buffer.takeHandshake with
      | error failure =>
        have hitem : listener.nextItem = .error failure := by
          rw [nextItem, if_neg hreceived, htaken]
        rw [listen_of_error hitem]
        exact .idle rfl
      | ok taken? =>
        cases taken? with
        | some taken => exact absurd htaken (hnone taken.1 taken.2)
        | none =>
          have hitem : listener.nextItem = .ok none := by
            rw [nextItem, if_neg hreceived, htaken]
          rw [listen_of_none hitem]
          exact .idle rfl

end Listener

/-! ## Moves -/

namespace Connection

variable {c d : Connection X Y} {frames : List Frame}

theorem teardown_hands (c : Connection X Y) (frames : List Frame) :
    Hands c frames c.teardown.outbox.events c.teardown := by
  by_cases hdown : c.isDown = true
  · rw [teardown, if_pos hdown]
    exact .silent rfl rfl
  · rw [teardown, if_neg hdown]
    refine ⟨[.droppedConnection], rfl, [.teardown], .nil, ?_, ?_⟩
    · exact AnyModule.seats_teardownAll c.modules
    · symm
      rw [List.flatMap_eq_nil_iff.mpr]
      · rfl
      · intro seat _
        cases seat with
        | none => rfl
        | some exchange => rfl

theorem Hands.teardown (hsingle : IsSingle c.seats) (h : Hands c frames d.outbox.events d) :
    Hands c frames d.teardown.outbox.events d.teardown := by
  rw [← List.append_nil frames]
  exact h.trans hsingle (teardown_ownerSteps d).steps.keepsInfoHash (teardown_hands d [])

/-! ## Rounds -/

section Quiet

variable (hX : Capability.Queues Output.ReportsNothing X)
  (hY : SubProtocol.Queues Output.ReportsNothing Y)
include hX hY

theorem consumed_hands (hup : c.isDown = false) (hsingle : IsSingle c.seats) (now : Nat) :
    Hands c (c.listener.feed c.arrival.data).frames (c.consumed now).outbox.events
      (c.consumed now) := by
  obtain ⟨-, hsession, -, hevents, -⟩ := consumed_listens c now
  have hinfoHash := (consumed_pollSteps hup now).1.steps.infoHash_eq
  have hlistener : IsSingle (AnyModule.seats (c.listener.feed c.arrival.data).session.modules) :=
    hsingle
  have hattends := Listener.listen_attends hX hY hlistener
  rw [← hsession] at hattends
  refine ⟨_, hevents, ?_⟩
  rw [hinfoHash]
  exact hattends

theorem poll_hands (hc : c.IsOpen) (hsingle : IsSingle c.seats) (now : Nat) :
    Hands c (c.framesIn (.call now .process)) (c.poll now).1.outbox.events (c.poll now).1 := by
  cases hfault : c.arrival.fault with
  | some failure =>
    obtain ⟨fed, hpoll, hsession, hevents⟩ := poll_of_fault hfault now
    rw [hpoll]
    have hmodules : fed.modules = c.modules := congrArg Session.modules hsession
    exact .silent hevents (congrArg AnyModule.seats hmodules)
  | none =>
    have hframes : c.framesIn (.call now .process) = (c.listener.feed c.arrival.data).frames :=
      if_pos ⟨hc.up, hc.connected, hfault⟩
    have hconsumed := consumed_hands hX hY hc.up hsingle now
    rw [hframes]
    cases hresult : (c.listener.feed c.arrival.data).listen.result with
    | error failure =>
      rw [poll_of_refused hfault hresult now]
      exact hconsumed
    | ok =>
      rcases poll_of_taken hfault hresult now with ⟨-, hpoll⟩ | ⟨failure, -, hpoll⟩
      · rw [hpoll, noteIdle]
        split
        · have hidle : Hands (c.consumed now) []
              ((c.consumed now).outbox.events ++ [.noData]) (c.consumed now) :=
            ⟨[.noData], rfl, .idle rfl⟩
          rw [← List.append_nil (Listener.frames _)]
          exact hconsumed.trans hsingle (fun _ h => h) hidle
        · exact hconsumed
      · rw [hpoll]
        exact hconsumed

theorem process_hands (hsingle : IsSingle c.seats) (now : Nat) :
    Hands c (c.framesIn (.call now .process)) (c.process now).1.outbox.events
      (c.process now).1 := by
  by_cases hdown : c.isDown = true
  · rw [process, if_pos hdown]
    exact .silent rfl rfl
  · by_cases hconnected : c.transport.connected = true
    · have hc : c.IsOpen := ⟨by simpa using hdown, hconnected⟩
      have hpoll := poll_hands hX hY hc hsingle now
      cases hd : c.poll now with
      | mk d failure? =>
        rw [hd] at hpoll
        cases failure? with
        | none =>
          rw [hc.process_of_poll hd]
          exact hpoll
        | some failure =>
          rw [hc.process_of_poll_failure hd]
          exact hpoll.teardown hsingle
    · rw [process, if_neg hdown, if_pos (by simpa using hconnected)]
      split
      · exact .silent rfl rfl
      · exact teardown_hands c _

omit hY in
theorem introduced_hands (c : Connection X Y) (infoHash : Digest) (peerId : PeerId) :
    Hands c [] (c.introduced infoHash peerId).outbox.events (c.introduced infoHash peerId) := by
  let handshake : Handshake := ⟨Capability.reserved c.modules, infoHash, peerId⟩
  have hquiet : ((c.greet infoHash peerId).introduce handshake).output.ReportsNothing :=
    Reply.output_each Output.admitsMessages_reportsNothing
      (fun m => AnyModule.onHandshake_reportsNothing hX m _ handshake) c.modules
  have hseats : (c.introduced infoHash peerId).seats = c.seats :=
    AnyModule.seats_congr
      (Reply.map_next_each (fun m => AnyModule.seats?_onHandshake m _ handshake) c.modules)
  refine ⟨_, rfl, ?_⟩
  rw [hseats]
  exact .idle hquiet

omit hY in
theorem HandshakeOutcome.hands (hsingle : IsSingle c.seats) (h : HandshakeOutcome c d) :
    Hands c [] d.outbox.events d := by
  cases h with
  | refused => exact .silent rfl rfl
  | mismatch hup => exact teardown_hands c []
  | introduced infoHash peerId hup hsent => exact introduced_hands hX c infoHash peerId
  | failed infoHash peerId hup hsent =>
    exact (introduced_hands hX c infoHash peerId).teardown hsingle

/-- Every move but the addition of a module hands frames to the exchange, or nothing. -/
theorem move_hands (hsingle : IsSingle c.seats) {m : Move X Y}
    (hm : ∀ now added, m ≠ .call now (.addModule added)) :
    Hands c (c.framesIn m) (c.takenBy m ++ (c.move m).outbox.events) (c.move m) := by
  have hsends : ∀ now call, Call.Sends call →
      Hands c [] (c.takenBy (.call now call) ++ (c.move (.call now call)).outbox.events)
        (c.move (.call now call)) := by
    intro now call hcall
    exact .silent (queue_of_sends c now call hcall) (perform_sendSteps c now call hcall).seats_eq
  cases m with
  | stir stimulus => exact .silent rfl rfl
  | call now call =>
    cases call with
    | connect =>
      have hmodules : c.connect.1.modules = c.modules := by
        rw [connect]
        split
        · rfl
        · split <;> rfl
      exact .silent (connect_worksUnheard c).events (congrArg AnyModule.seats hmodules)
    | handshake infoHash peerId => exact (handshake_outcome c infoHash peerId).hands hX hsingle
    | process => exact process_hands hX hY hsingle now
    | disconnect => exact teardown_hands c []
    | addModule added => exact absurd rfl (hm now added)
    | setPieceCount count => exact .silent rfl rfl
    | nextEvent => exact .silent (queue_of_nextEvent c now) rfl
    | drainEvents => exact .silent (List.append_nil _) rfl
    | send message => exact hsends now _ trivial
    | sendBitfield pieces disguised => exact hsends now _ trivial
    | sendExtended name payload => exact hsends now _ trivial
    | sendFromRegistry name payload => exact hsends now _ trivial
    | sendPeerExchange message => exact hsends now _ trivial
    | grantAllowedFast host pieceCount => exact hsends now _ trivial

omit hX hY [Capability X] [SubProtocol Y] in
/-- A module that is added has no effect on the exchange, unless it is the first registry. -/
theorem addModule_seats (c : Connection X Y) (added : AnyModule X Y) :
    (c.addModule added).1.outbox.events = c.outbox.events ∧
      ((c.addModule added).1.seats = c.seats ∨
        c.seats = [] ∧ ∃ registry, added = .registry registry ∧
          (c.addModule added).1.seats = registry.seats) := by
  rw [addModule]
  split
  · exact ⟨rfl, .inl rfl⟩
  · refine ⟨rfl, ?_⟩
    change AnyModule.seats (c.modules ++ [added]) = AnyModule.seats c.modules ∨
      AnyModule.seats c.modules = [] ∧ ∃ registry, added = .registry registry ∧
        AnyModule.seats (c.modules ++ [added]) = registry.seats
    rw [AnyModule.seats, AnyModule.seats, List.findSome?_append]
    cases c.modules.findSome? AnyModule.seats? with
    | some found => exact .inl rfl
    | none =>
      cases added with
      | fast fast => exact .inl rfl
      | registry registry => exact .inr ⟨rfl, registry, rfl, rfl⟩
      | custom m => exact .inl rfl

theorem move_raises (hsingle : IsSingle c.seats) (m : Move X Y) :
    ∃ raised, c.takenBy m ++ (c.move m).outbox.events = c.outbox.events ++ raised := by
  by_cases hm : ∃ now added, m = .call now (.addModule added)
  · obtain ⟨now, added, rfl⟩ := hm
    exact ⟨[], (c.addModule_seats added).1.trans (List.append_nil _).symm⟩
  · obtain ⟨raised, hraised, -⟩ := move_hands hX hY hsingle
      fun now added h => hm ⟨now, added, h⟩
    exact ⟨raised, hraised⟩

end Quiet

/-! ## Runs -/

/-- The owner adds this registry in one of the moves. -/
def Adds (moves : List (Move X Y)) (registry : Registry Y) : Prop :=
  ∃ now, Move.call now (.addModule (.registry registry)) ∈ moves

omit [Capability X] in
theorem isSingle_of_adds {moves : List (Move X Y)} {origin : List Seat}
    (hfresh : ∀ registry, Adds moves registry → registry.IsFresh)
    (horigin : origin = [] ∨ ∃ registry, Adds moves registry ∧ origin = registry.seats) :
    IsSingle origin := by
  rcases horigin with rfl | ⟨registry, hadds, rfl⟩
  · exact List.Pairwise.nil
  · exact (hfresh registry hadds).isSingle

section Quiet

variable (hX : Capability.Queues Output.ReportsNothing X)
  (hY : SubProtocol.Queues Output.ReportsNothing Y)
include hX hY

/-- In every run, the exchange of the first registry attends to the frames that come in. -/
theorem play_attends (transport : Transport) (config : Config) (now : Nat)
    {moves : List (Move X Y)} (hfresh : ∀ registry, Adds moves registry → registry.IsFresh) :
    let start : Connection X Y := new transport config now
    ∃ origin, (origin = [] ∨ ∃ registry, Adds moves registry ∧ origin = registry.seats) ∧
      Attends origin (start.play moves).state.infoHash (start.framesOf moves)
        (start.play moves).seats (start.history moves) := by
  intro start
  have hawaits : start.AwaitsInfoHash := fun _ => rfl
  induction moves using List.reverseRecOn with
  | nil => exact ⟨[], .inl rfl, .idle rfl⟩
  | append_singleton moves m ih =>
    have hmono : ∀ registry, Adds moves registry → Adds (moves ++ [m]) registry := by
      rintro registry ⟨time, hmem⟩
      exact ⟨time, List.mem_append_left [m] hmem⟩
    have hearlier : ∀ registry, Adds moves registry → registry.IsFresh :=
      fun registry hadds => hfresh registry (hmono registry hadds)
    obtain ⟨origin, horigin, hattends⟩ := ih hearlier
    have hsingle := isSingle_of_adds hearlier horigin
    have hlater : origin = [] ∨
        ∃ registry, Adds (moves ++ [m]) registry ∧ origin = registry.seats := by
      rcases horigin with hnothing | ⟨registry, hadds, hseats⟩
      · exact .inl hnothing
      · exact .inr ⟨registry, hmono registry hadds, hseats⟩
    have hkeeps := ((hawaits.play moves).move m).1
    rw [play_concat, framesOf_concat]
    by_cases hm : ∃ time added, m = .call time (.addModule added)
    · obtain ⟨time, added, rfl⟩ := hm
      obtain ⟨hevents, hcase⟩ := (start.play moves).addModule_seats added
      have hhistory := history_concat start moves (.call time (.addModule added))
        (hevents.trans (List.append_nil _).symm)
      rw [hhistory, List.append_nil]
      rcases hcase with hsame | ⟨hempty, registry, rfl, hseats⟩
      · refine ⟨origin, hlater, ?_⟩
        change Attends _ _ _ ((start.play moves).addModule added).1.seats _
        rw [hsame]
        exact (hattends.of_infoHash hkeeps).append_frames _
      · -- Nobody could report anything up to here.
        obtain ⟨calls, -, hundergoes⟩ := hattends
        rw [hempty] at hundergoes
        have hnobody : origin = [] := List.map_eq_nil_iff.mp hundergoes.after_eq.symm
        have hquiet : Event.reported (start.history moves) = [] := by
          rw [hundergoes.reported_eq, hnobody]
          rfl
        refine ⟨registry.seats, .inr ⟨registry, ⟨time, by simp⟩, rfl⟩, ?_⟩
        change Attends _ _ _ ((start.play moves).addModule (.registry registry)).1.seats _
        rw [hseats]
        exact .idle hquiet
    · obtain ⟨raised, hraised, hnext⟩ := move_hands hX hY (hattends.isSingle hsingle)
        fun time added h => hm ⟨time, added, h⟩
      rw [history_concat start moves m hraised]
      exact ⟨origin, hlater, (hattends.of_infoHash hkeeps).trans hsingle hnext⟩

theorem exists_history_append (transport : Transport) (config : Config) (now : Nat)
    (moves : List (Move X Y)) {later : List (Move X Y)}
    (hfresh : ∀ registry, Adds (moves ++ later) registry → registry.IsFresh) :
    let start : Connection X Y := new transport config now
    ∃ news, start.history (moves ++ later) = start.history moves ++ news := by
  intro start
  induction later using List.reverseRecOn with
  | nil => exact ⟨[], by rw [List.append_nil, List.append_nil]⟩
  | append_singleton later m ih =>
    have hearlier : ∀ registry, Adds (moves ++ later) registry → registry.IsFresh := by
      rintro registry ⟨time, hmem⟩
      apply hfresh registry
      refine ⟨time, ?_⟩
      rw [← List.append_assoc]
      exact List.mem_append_left [m] hmem
    obtain ⟨news, hnews⟩ := ih hearlier
    obtain ⟨origin, horigin, hattends⟩ := play_attends hX hY transport config now hearlier
    obtain ⟨raised, hraised⟩ := move_raises hX hY
      (hattends.isSingle (isSingle_of_adds hearlier horigin)) m
    refine ⟨news ++ raised, ?_⟩
    rw [← List.append_assoc, history_concat start _ m hraised, hnews, List.append_assoc]

omit hX hY [Capability X] [SubProtocol Y] in
theorem map_fst_metadataExchange? (c : Connection X Y) :
    c.metadataExchange?.map Prod.fst = c.seats.findSome? id := by
  have hregistry : c.registry? = c.modules.findSome? AnyModule.asRegistry? := rfl
  have hseats :
      c.seats = ((c.modules.findSome? AnyModule.asRegistry?).map Registry.seats).getD [] := by
    rw [List.map_findSome?]
    rfl
  rw [metadataExchange?, sub?, hregistry, hseats]
  cases c.modules.findSome? AnyModule.asRegistry? with
  | none => rfl
  | some registry =>
    change Option.map Prod.fst (registry.subs.findSome? _) = registry.seats.findSome? id
    rw [List.map_findSome?, Registry.seats, List.findSome?_map]
    congr 1
    funext sub
    obtain ⟨name, handler⟩ := sub
    cases handler with
    | metadata exchange => rfl
    | peerExchange channel => rfl
    | custom sub => rfl

/-- In a run, `origin` sits on one of the seats and is the exchange of the connection: what
it becomes and reports is due to calls that the frames of the peer cause. -/
structure Employs (start : Connection X Y) (moves : List (Move X Y)) (seats : List Seat)
    (origin : MetadataExchange) (calls : List MetadataExchange.Call) : Prop where
  seated : some origin ∈ seats
  prompted : MetadataExchange.Prompted seats (start.play moves).state.infoHash calls
    (start.framesOf moves)
  exchange_eq : (start.play moves).metadataExchange?.map Prod.fst = some (origin.after calls)
  reported_eq : Event.reported (start.history moves) = Event.reported (origin.raised calls)

/-- There is no exchange and no metadata, or one exchange is behind all of it. -/
theorem play_employs (transport : Transport) (config : Config) (now : Nat)
    {moves : List (Move X Y)} (hfresh : ∀ registry, Adds moves registry → registry.IsFresh) :
    let start : Connection X Y := new transport config now
    (start.play moves).metadataExchange? = none ∧ Event.reported (start.history moves) = [] ∨
      ∃ registry origin calls, Adds moves registry ∧
        Employs start moves registry.seats origin calls := by
  intro start
  obtain ⟨origin, horigin, calls, hprompted, hundergoes⟩ :=
    play_attends hX hY transport config now hfresh
  have hexchange := map_fst_metadataExchange? (start.play moves)
  rcases hundergoes.outcome (isSingle_of_adds hfresh horigin) with
    ⟨-, hnobody, hquiet⟩ | ⟨exchange, hseated, hfound, hreported⟩
  · left
    rw [hnobody, Option.map_eq_none_iff] at hexchange
    exact ⟨hexchange, hquiet⟩
  · right
    rcases horigin with rfl | ⟨registry, hadds, rfl⟩
    · cases hseated
    · exact ⟨registry, exchange, calls, hadds, hseated, hprompted, hexchange.trans hfound,
        hreported⟩

/-! ## Metadata that is reported -/

/-- How metadata that was reported in a run is verified. -/
structure Verifies (start : Connection X Y) (moves : List (Move X Y)) (origin : MetadataExchange)
    (calls : List MetadataExchange.Call) (metadata : Bytes) : Prop where
  origin_eq : origin = .fetching
  reported_eq : Event.reported (start.history moves) = [metadata]
  infoHash_eq : (start.play moves).state.infoHash = some (Sha1.digest metadata)
  fetched : origin.Fetched metadata calls
  kept : ∀ later : List (Move X Y),
    (∀ registry, Adds (moves ++ later) registry → registry.IsFresh) →
    (start.play (moves ++ later)).metadataExchange?.map Prod.fst = some (.serving metadata)

/-- Metadata that is reported is what the exchange has, from then on. -/
theorem exchange_of_reported (transport : Transport) (config : Config) (now : Nat)
    {moves : List (Move X Y)} (hfresh : ∀ registry, Adds moves registry → registry.IsFresh)
    {metadata : Bytes} :
    let start : Connection X Y := new transport config now
    metadata ∈ Event.reported (start.history moves) →
      (start.play moves).metadataExchange?.map Prod.fst = some (.serving metadata) := by
  intro start hmem
  rcases play_employs hX hY transport config now hfresh with
    ⟨-, hquiet⟩ | ⟨registry, origin, calls, hadds, hemploys⟩
  · rw [hquiet] at hmem
    cases hmem
  · rw [hemploys.reported_eq] at hmem
    rw [hemploys.exchange_eq]
    have hsound : origin.IsSound := by
      rcases (hfresh registry hadds).exchange hemploys.seated with rfl | ⟨old, rfl⟩
      · exact MetadataExchange.isSound_fetching
      · exact MetadataExchange.isSound_serving old
    exact congrArg some (hsound.reported_eq hmem).2.2

theorem Employs.verifies {transport : Transport} {config : Config} {now : Nat}
    {moves : List (Move X Y)} (hfresh : ∀ registry, Adds moves registry → registry.IsFresh)
    {registry : Registry Y} {origin : MetadataExchange} {calls : List MetadataExchange.Call}
    (hadds : Adds moves registry)
    (h : Employs (new transport config now : Connection X Y) moves registry.seats origin calls)
    {metadata : Bytes}
    (hmem : metadata ∈ Event.reported ((new transport config now : Connection X Y).history moves)) :
    Verifies (new transport config now : Connection X Y) moves origin calls metadata := by
  have hreported := hmem
  rw [h.reported_eq] at hreported
  have horigin : origin = .fetching := by
    rcases (hfresh registry hadds).exchange h.seated with hfetching | ⟨old, rfl⟩
    · exact hfetching
    · rw [MetadataExchange.reported_serving] at hreported
      cases hreported
  have hsound : origin.IsSound := by
    rw [horigin]
    exact MetadataExchange.isSound_fetching
  have hdownload : origin.download = none := by
    rw [horigin]
    rfl
  have hfetched := hsound.fetched hdownload hreported
  refine ⟨horigin, h.reported_eq.trans (hsound.reported_eq hreported).2.1, ?_, hfetched, ?_⟩
  · have hprompted := h.prompted
    obtain ⟨-, -, hcompletes⟩ := hfetched
    exact hprompted.infoHash_eq (List.mem_append_right _ List.mem_cons_self) hcompletes.infoHash_eq
  · intro later hlater
    obtain ⟨news, hnews⟩ := exists_history_append hX hY transport config now moves hlater
    apply exchange_of_reported hX hY transport config now hlater
    rw [hnews, Event.reported_append]
    exact List.mem_append_left _ hmem

/-- In every run in which custom modules and sub-protocols do not report metadata
themselves, metadata is reported only after it was verified, and at most once.

A data message that does not fit the download under way is refused and changes nothing,
and one that was not asked for is ignored.  If there is an exchange at all, every call
leaves it sound: it fetches only what it does not have, and holds pieces of the sizes that
their indices give.  One that serves reports nothing, and what one that fetches reports is
verified and kept. -/
theorem reports_verified_metadata_once (transport : Transport) (config : Config) (now : Nat)
    {moves : List (Move X Y)} (hfresh : ∀ registry, Adds moves registry → registry.IsFresh) :
    let start : Connection X Y := new transport config now
    (∀ (exchange : MetadataExchange) (c : MetadataExchange.Call) (index : Nat) (data : Bytes),
      c.piece? = some (index, data) →
        (∀ download, exchange.download = some download → ¬ download.Fits index data →
          ∃ fault, exchange.call c = .fail exchange (.extension fault) .none) ∧
        (exchange.download = none → exchange.call c = .ok exchange () .none)) ∧
    ((start.play moves).metadataExchange? = none ∧ Event.reported (start.history moves) = [] ∨
      ∃ registry origin calls, Adds moves registry ∧
        Employs start moves registry.seats origin calls ∧
        (∀ earlier, earlier <+: calls → (origin.after earlier).IsSound) ∧
        (∀ metadata, origin = .serving metadata → Event.reported (start.history moves) = []) ∧
        ∀ metadata ∈ Event.reported (start.history moves),
          Verifies start moves origin calls metadata) := by
  intro start
  constructor
  · intro exchange c index data hpiece
    constructor
    · intro download hdownload hfits
      exact MetadataExchange.call_of_not_fits hdownload hpiece hfits
    · intro hdownload
      exact MetadataExchange.call_of_download_eq_none hdownload hpiece
  · rcases play_employs hX hY transport config now hfresh with
      hnothing | ⟨registry, origin, calls, hadds, hemploys⟩
    · exact .inl hnothing
    · right
      refine ⟨registry, origin, calls, hadds, hemploys, ?_, ?_, ?_⟩
      · intro earlier _
        apply MetadataExchange.IsSound.after
        rcases (hfresh registry hadds).exchange hemploys.seated with rfl | ⟨old, rfl⟩
        · exact MetadataExchange.isSound_fetching
        · exact MetadataExchange.isSound_serving old
      · rintro metadata rfl
        rw [hemploys.reported_eq, MetadataExchange.reported_serving]
      · intro metadata hmem
        exact hemploys.verifies hX hY hfresh hadds hmem

end Quiet

/-- The moves of a connection that fetches one byte of metadata.  Behind the piece, the
peer announces more and sends a piece that was not asked for. -/
def fetchesOneByte : List (Move Empty Empty) :=
  [.call 0 (.addModule (.registry
      ⟨[⟨"ut_metadata", .metadata .fetching⟩], [], none, none, none⟩)),
    .call 0 (.handshake "86f7e437faa5a7fce15d1ddcb9eaeaea377667b8" (List.replicate 20 7)),
    .stir (.feed [.data (
      Handshake.encode ⟨.none, Sha1.digest [97], ⟨Vector.replicate 20 8⟩⟩ ++
      (Message.extended 0 (Bytes.ofText "d1:md11:ut_metadatai3ee13:metadata_sizei1ee")).encode ++
      (Message.extended 1 (MetadataMessage.ofPiece 0 1 [97]).encode).encode ++
      (Message.extended 0 (Bytes.ofText "d1:md11:ut_metadatai3ee13:metadata_sizei5ee")).encode ++
      (Message.extended 1 (MetadataMessage.ofPiece 7 5 [98]).encode).encode)]),
    .call 1 .process, .call 2 .disconnect]

/-- The one byte is reported and verified. -/
theorem reports_verified_metadata_once_of_oneByte :
    let start : Connection Empty Empty := new (.new true) .standard 0
    (∀ registry, Adds fetchesOneByte registry → registry.IsFresh) ∧
      Event.reported (start.history fetchesOneByte) = [[97]] ∧
      ∃ calls, Verifies start fetchesOneByte .fetching calls [97] := by
  intro start
  have hfresh : ∀ registry, Adds fetchesOneByte registry → registry.IsFresh := by
    rintro registry ⟨now, hmem⟩
    obtain ⟨rfl, rfl⟩ : now = 0 ∧
        registry = ⟨[⟨"ut_metadata", .metadata .fetching⟩], [], none, none, none⟩ := by
      simpa [fetchesOneByte] using hmem
    exact ⟨⟨[], [], none, none, none⟩, [.metadata .fetching], rfl, rfl, by simp⟩
  have hreported : Event.reported (start.history fetchesOneByte) = [[97]] := by decide +kernel
  refine ⟨hfresh, hreported, ?_⟩
  obtain ⟨-, hrun⟩ := reports_verified_metadata_once Capability.queues_empty
    SubProtocol.queues_empty (.new true) .standard 0 hfresh
  rcases hrun with ⟨-, hquiet⟩ | ⟨registry, origin, calls, -, -, -, -, hverifies⟩
  · rw [hreported] at hquiet
    cases hquiet
  · have hverified := hverifies [97] (hreported ▸ List.mem_singleton_self _)
    have horigin := hverified.origin_eq
    subst horigin
    exact ⟨calls, hverified⟩

end Connection

end PeerLink
