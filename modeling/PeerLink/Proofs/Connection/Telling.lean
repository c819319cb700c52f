import PeerLink.Proofs.Connection.Step
import PeerLink.Proofs.Module.Life
import PeerLink.Proofs.Module.Output

/-!
# What a move tells, and what it does to the modules

A move is sorted into one of two kinds by `move_tells`: it raises events other than
the one of a teardown and lets the modules work, or it is the one that takes the
connection down, which ends every module and is told behind all else.
-/

namespace PeerLink

/-- The events that an answer hands to the owner. -/
def Answer.taken : Answer → List Event
  | .event next? => next?.toList
  | .events all => all
  | _ => []

namespace Connection

variable {X Y : Type} [Capability X] [SubProtocol Y]

/-- The modules of `c` are there in `d`, after some work. -/
def Keeps (c d : Connection X Y) : Prop := Evolves AnyModule.Used c.modules d.modules

/-- The modules of `c` are there in `d`, ended once. -/
def Ends (c d : Connection X Y) : Prop := Evolves AnyModule.Ended c.modules d.modules

/-- The events that a move hands to the owner. -/
def takenBy (c : Connection X Y) : Move X Y → List Event
  | .call now call => (c.perform now call).2.taken
  | .stir _ => []

/-- The owner takes the oldest event. -/
theorem queue_of_nextEvent (c : Connection X Y) (now : Nat) :
    (c.perform now .nextEvent).2.taken ++ (c.perform now .nextEvent).1.outbox.events =
      c.outbox.events := by
  change c.outbox.events.head?.toList ++ c.outbox.events.tail = c.outbox.events
  cases c.outbox.events <;> rfl

/-- From `c` to `d` modules may work, but no event is queued or taken. -/
structure WorksUnheard (c d : Connection X Y) : Prop where
  events : d.outbox.events = c.outbox.events
  down : d.isDown = c.isDown
  keeps : Keeps c d

/-- What happens from `c` to `d` if the events of `c` and those raised on the way make
up `queue`. -/
inductive Tells (c : Connection X Y) (queue : List Event) (d : Connection X Y) : Prop where
  | works (raised : List Event) (hqueue : queue = c.outbox.events ++ raised)
      (hraised : .droppedConnection ∉ raised) (hdead : c.isDown = true → raised = [])
      (hdown : d.isDown = c.isDown) (hkeeps : Keeps c d)
  | drops (raised : List Event) (hup : c.isDown = false)
      (hqueue : queue = c.outbox.events ++ raised ++ [.droppedConnection])
      (hraised : .droppedConnection ∉ raised) (hdown : d.isDown = true) (hends : Ends c d)

variable {c d e : Connection X Y} {queue : List Event}

theorem Keeps.of_modules_eq (h : d.modules = c.modules) : Keeps c d := by
  rw [Keeps, h]
  exact Evolves.refl (fun _ => .refl) c.modules

theorem Keeps.trans (h : Keeps c d) (h' : Keeps d e) : Keeps c e :=
  Evolves.trans h h' fun _ _ _ => Relation.ReflTransGen.trans

theorem Keeps.ends (h : Keeps c d) (h' : Ends d e) : Ends c e := by
  refine Evolves.trans h h' ?_
  rintro m m' m'' hused ⟨last, hlast, rfl⟩
  exact ⟨last, hused.trans hlast, rfl⟩

theorem WorksUnheard.silent (hevents : d.outbox.events = c.outbox.events)
    (hdown : d.isDown = c.isDown) (hmodules : d.modules = c.modules) : WorksUnheard c d :=
  ⟨hevents, hdown, .of_modules_eq hmodules⟩

theorem WorksUnheard.trans (h : WorksUnheard c d) (h' : WorksUnheard d e) : WorksUnheard c e :=
  ⟨h'.events.trans h.events, h'.down.trans h.down, h.keeps.trans h'.keeps⟩

theorem WorksUnheard.tells (h : WorksUnheard c d) : Tells c d.outbox.events d :=
  .works [] (by simp [h.events]) List.not_mem_nil (fun _ => rfl) h.down h.keeps

theorem Tells.silent (hqueue : queue = c.outbox.events) (hdown : d.isDown = c.isDown)
    (hmodules : d.modules = c.modules) : Tells c queue d :=
  .works [] (by simp [hqueue]) List.not_mem_nil (fun _ => rfl) hdown (.of_modules_eq hmodules)

theorem Tells.trans (h : Tells c d.outbox.events d) (hup : d.isDown = false)
    (h' : Tells d queue e) : Tells c queue e := by
  cases h with
  | drops raised _ hevents hraised hdown hends => simp [hup] at hdown
  | works raised hevents hraised hdead hdown hkeeps =>
    have hlive : c.isDown = false := hdown.symm.trans hup
    cases h' with
    | works later hqueue hlater hdead' hdown' hkeeps' =>
      refine .works (raised ++ later) ?_ ?_ ?_ (hdown'.trans hdown) (hkeeps.trans hkeeps')
      · rw [hqueue, hevents, List.append_assoc]
      · simp [hraised, hlater]
      · simp [hlive]
    | drops later _ hqueue hlater hdown' hends =>
      refine .drops (raised ++ later) hlive ?_ ?_ hdown' (hkeeps.ends hends)
      · rw [hqueue, hevents, List.append_assoc c.outbox.events]
      · simp [hraised, hlater]

/-! ## Sending -/

theorem useModule?_worksUnheard {α : Type}
    {act : ConnectionState → AnyModule X Y → Option (Reply (AnyModule X Y) α)}
    {used : Connection X Y × Except Failure α} (h : c.useModule? act = some used)
    (hact : ∀ m reply, act c.state m = some reply →
      reply.output.IsUnheard ∧ AnyModule.Used m reply.next) : WorksUnheard c used.1 := by
  obtain ⟨reply, hreply, hused⟩ := exists_settle_of_useModule? h
  have hunheard : reply.output.IsUnheard :=
    Reply.output_first? (fun m reply hm => (hact m reply hm).1) hreply
  have hmodules : Evolves AnyModule.Used c.modules reply.next :=
    Evolves.first? (fun _ => .refl) (fun m reply hm => (hact m reply hm).2) hreply
  have hevents : (c.settle reply).outbox.events = c.outbox.events := by
    change c.outbox.events ++ reply.output.events = c.outbox.events
    rw [hunheard, List.append_nil]
  rw [hused]
  exact ⟨hevents, rfl, hmodules⟩

theorem useRegistry?_worksUnheard {α : Type}
    {act : ConnectionState → Registry Y → Reply (Registry Y) α}
    {used : Connection X Y × Except Failure α} (h : c.useRegistry? act = some used)
    (hact : ∀ registry, (act c.state registry).output.IsUnheard ∧
      AnyModule.Used (X := X) (.registry registry) (.registry (act c.state registry).next)) :
    WorksUnheard c used.1 := by
  refine useModule?_worksUnheard h ?_
  intro m reply hreply
  cases m with
  | registry registry =>
    obtain rfl := Option.some.inj hreply
    exact hact registry
  | fast fast => cases hreply
  | custom m => cases hreply

theorem sendPeerExchange?_worksUnheard {message : PeerExchange}
    {sent : Connection X Y × Except Failure Unit} (h : c.sendPeerExchange? message = some sent) :
    WorksUnheard c sent.1 := by
  have hsub : c.useSub? (AnySubProtocol.exchange? message) = some sent := h
  obtain ⟨result, hresult⟩ := exists_useRegistry?_of_useSub? hsub
  change WorksUnheard c (sent.1, result).1
  refine useRegistry?_worksUnheard hresult ?_
  intro registry
  split
  · next reply hreply =>
    have hworks := AnyModule.Works.exchange (X := X) hreply
    obtain ⟨subs, hsubs, rfl⟩ := Option.map_eq_some_iff.mp hreply
    refine ⟨Reply.output_first? (fun sub renewed hrenewed => ?_) hsubs, .single hworks⟩
    obtain ⟨used, hused, rfl⟩ := Option.map_eq_some_iff.mp hrenewed
    exact AnySubProtocol.output_exchange? Output.admitsMessages_isUnheard hused
  · exact ⟨rfl, .refl⟩

theorem send_worksUnheard (c : Connection X Y) (now : Nat) (message : Message) :
    WorksUnheard c (c.send now message).1 := by
  have hdown := isDown_eq_of_standing (standing_send c now message)
  refine .silent ?_ hdown ?_
  all_goals
    rw [send]
    split <;> rfl

theorem SendStep.worksUnheard (h : SendStep c d) : WorksUnheard c d := by
  cases h with
  | pick picker => exact .silent rfl rfl rfl
  | send now message hup => exact send_worksUnheard c now message
  | sendFromRegistry hsent =>
    refine useRegistry?_worksUnheard hsent ?_
    intro registry
    exact ⟨SubContext.output_send Output.admitsMessages_isUnheard _ _ _, .single (.send ..)⟩
  | sendPeerExchange hsent => exact sendPeerExchange?_worksUnheard hsent
  | grantAllowedFast hgranted =>
    refine useModule?_worksUnheard hgranted ?_
    intro m reply hreply
    cases m with
    | fast fast =>
      obtain rfl := Option.some.inj hreply
      exact ⟨FastExtension.output_grant Output.admitsMessages_isUnheard fast c.state _ _,
        .single (.grant ..)⟩
    | registry registry => cases hreply
    | custom m => cases hreply

theorem SendSteps.worksUnheard (h : SendSteps c d) : WorksUnheard c d := by
  induction h with
  | refl => exact .silent rfl rfl rfl
  | tail _ hstep ih => exact ih.trans hstep.worksUnheard

/-! ## Rounds and greetings -/

theorem teardown_tells (c : Connection X Y) : Tells c c.teardown.outbox.events c.teardown := by
  by_cases hdown : c.isDown = true
  · rw [teardown, if_pos hdown]
    exact .silent rfl rfl rfl
  · have hup : c.isDown = false := by simpa using hdown
    rw [teardown, if_neg hdown]
    refine .drops [] hup (by simp) List.not_mem_nil rfl ?_
    exact Evolves.teardownAll (fun m => ⟨m, .refl, rfl⟩) c.modules

/-- An event is told, and no module does anything. -/
theorem Tells.event {event : Event} (hup : c.isDown = false) (hevent : event ≠ .droppedConnection)
    (hqueue : queue = c.outbox.events ++ [event]) (hdown : d.isDown = c.isDown)
    (hmodules : d.modules = c.modules) : Tells c queue d :=
  .works [event] hqueue (by simpa using hevent.symm) (by simp [hup]) hdown
    (.of_modules_eq hmodules)

theorem tell_tells (hup : c.isDown = false) {event : Event} (hevent : event ≠ .droppedConnection) :
    Tells c (c.tell event).outbox.events (c.tell event) :=
  .event hup hevent rfl (isDown_eq_of_standing (ConnectionState.standing_observe c.state event)) rfl

theorem acceptHandshake_tells (hup : c.isDown = false) (handshake : Handshake) :
    Tells c (c.acceptHandshake handshake).1.outbox.events (c.acceptHandshake handshake).1 := by
  have hdown := (acceptHandshake_isDown hup handshake).trans hup.symm
  rw [acceptHandshake] at hdown ⊢
  split at hdown
  · next hother =>
    rw [if_pos hother]
    exact .silent rfl rfl rfl
  · next hsame =>
    rw [if_neg hsame]
    exact .event hup Event.noConfusion rfl hdown rfl

section Quiet

variable (hX : Capability.Queues (Output.Raises (· ≠ .droppedConnection)) X)
  (hY : SubProtocol.Queues (Output.Raises (· ≠ .droppedConnection)) Y)
include hX hY

theorem offer_tells (hup : c.isDown = false) (command : UInt8) (payload : Bytes) :
    Tells c (c.offer command payload).1.outbox.events (c.offer command payload).1 := by
  have hA := Output.admits_raises fun _ h => h.isInbound.ne_droppedConnection
  have hraised := (AnyModule.queues hA hX hY).offer hA.toAdmitsMessages c.state command payload
    c.modules
  have hmodules : Evolves AnyModule.Used c.modules
      (Capability.offer c.state command payload c.modules).next :=
    Evolves.offer (fun _ => .refl) (fun _ _ _ _ => .single (.onCommand ..)) c.state command payload
      c.modules
  have hdown := isDown_eq_of_standing (standing_offer c command payload)
  refine .works (Capability.offer c.state command payload c.modules).output.events ?_
    (fun hdropped => hraised _ hdropped rfl) (by simp [hup]) hdown ?_
  · rw [offer]
    split <;> rfl
  · rw [Keeps, offer]
    split <;> exact hmodules

theorem dispatch_tells (hup : c.isDown = false) (frame : Frame) :
    Tells c (c.dispatch frame).1.outbox.events (c.dispatch frame).1 := by
  cases frame with
  | keepAlive => exact tell_tells hup Event.noConfusion
  | message command length payload =>
    rw [dispatch]
    split
    · next event hflag =>
      obtain ⟨known, -, hflag⟩ := Option.bind_eq_some_iff.mp hflag
      exact tell_tells hup (Inbound.isInbound_of_flag? hflag).ne_droppedConnection
    · split
      · next event hread =>
        exact tell_tells hup (Inbound.isInbound_of_read? hread).ne_droppedConnection
      · exact .silent rfl rfl rfl
      · exact offer_tells hX hY hup command payload

theorem PollStep.tells (h : PollStep c d) : c.isDown = false ∧ Tells c d.outbox.events d := by
  cases h with
  | keepAlive now hup =>
    have hdown := isDown_eq_of_standing (standing_keepAlive c now)
    refine ⟨hup, .silent ?_ hdown ?_⟩
    all_goals
      rw [Connection.keepAlive]
      split <;> rfl
  | receive hup => exact ⟨hup, .silent rfl rfl rfl⟩
  | rebuffer buffer hup => exact ⟨hup, .silent rfl rfl rfl⟩
  | acceptHandshake handshake hup hreceived => exact ⟨hup, acceptHandshake_tells hup handshake⟩
  | dispatch frame hup hreceived => exact ⟨hup, dispatch_tells hX hY hup frame⟩
  | flush hup => exact ⟨hup, .silent rfl rfl rfl⟩
  | noteIdle received hup =>
    refine ⟨hup, ?_⟩
    rw [Connection.noteIdle]
    split
    · exact .event hup Event.noConfusion rfl rfl rfl
    · exact .silent rfl rfl rfl
  | teardown hup => exact ⟨hup, teardown_tells c⟩

theorem PollSteps.tells (h : PollSteps c d) : Tells c d.outbox.events d := by
  induction h with
  | refl => exact .silent rfl rfl rfl
  | tail _ hstep ih =>
    obtain ⟨hup, htells⟩ := hstep.tells hX hY
    exact ih.trans hup htells

theorem introduce_tells (hup : c.isDown = false) (handshake : Handshake) :
    Tells c (c.settle (c.introduce handshake)).outbox.events
      (c.settle (c.introduce handshake)) := by
  have hA := Output.admits_raises fun _ h => h.isInbound.ne_droppedConnection
  have hraised : (c.introduce handshake).output.Raises (· ≠ .droppedConnection) :=
    Reply.output_each hA.toAdmitsMessages
      (fun m => (AnyModule.queues hA hX hY).onHandshake m c.state handshake) c.modules
  have hmodules : Evolves AnyModule.Used c.modules (c.introduce handshake).next :=
    Evolves.each (fun _ => .refl) (fun _ => .single (.onHandshake ..)) c.modules
  exact .works _ rfl (fun hdropped => hraised _ hdropped rfl) (by simp [hup]) rfl hmodules

theorem introduced_tells (hup : c.isDown = false) (infoHash : Digest) (peerId : PeerId) :
    Tells c (c.introduced infoHash peerId).outbox.events (c.introduced infoHash peerId) := by
  have hgreeted := greet_isDown hup infoHash peerId
  have hgreet : WorksUnheard c (c.greet infoHash peerId) :=
    .silent rfl (hgreeted.trans hup.symm) rfl
  exact hgreet.tells.trans hgreeted (introduce_tells hX hY hgreeted _)

theorem HandshakeOutcome.tells (h : HandshakeOutcome c d) : Tells c d.outbox.events d := by
  cases h with
  | refused => exact .silent rfl rfl rfl
  | mismatch hup => exact teardown_tells c
  | introduced digest id hup hsent => exact introduced_tells hX hY hup digest id
  | failed digest id hup hsent =>
    exact (introduced_tells hX hY hup digest id).trans (greet_isDown hup digest id)
      (teardown_tells _)

omit hX hY [Capability X] [SubProtocol Y] in
theorem connect_isDown (c : Connection X Y) : c.connect.1.isDown = c.isDown := by
  rw [connect]
  split
  · rfl
  · next hup =>
    have hup : c.isDown = false := by simpa using hup
    split
    · rfl
    · rw [hup]
      rfl

omit hX hY in
theorem connect_worksUnheard (c : Connection X Y) : WorksUnheard c c.connect.1 := by
  refine .silent ?_ (connect_isDown c) ?_
  all_goals
    rw [connect]
    split
    · rfl
    · split <;> rfl

omit hX hY [Capability X] [SubProtocol Y] in
theorem taken_answeredIfAny {α : Type} {f : α → Answer} (hf : ∀ a, (f a).taken = [])
    (outcome? : Option (Connection X Y × α)) : (c.answeredIfAny f outcome?).2.taken = [] := by
  cases outcome? with
  | none => rfl
  | some outcome => exact hf outcome.2

omit hX hY in
/-- A call that sends hands no events to the owner, and raises none. -/
theorem queue_of_sends (c : Connection X Y) (now : Nat) (call : Call X Y) (h : call.Sends) :
    (c.perform now call).2.taken ++ (c.perform now call).1.outbox.events = c.outbox.events := by
  have hanswer : (c.perform now call).2.taken = [] := by
    cases call with
    | send | sendBitfield | sendExtended => rfl
    | sendFromRegistry | sendPeerExchange | grantAllowedFast =>
      exact taken_answeredIfAny (fun _ => rfl) _
    | _ => exact h.elim
  rw [hanswer]
  exact (perform_sendSteps c now call h).worksUnheard.events

omit hX hY in
theorem perform_tells_of_sends (c : Connection X Y) (now : Nat) (call : Call X Y)
    (h : call.Sends) :
    Tells c ((c.perform now call).2.taken ++ (c.perform now call).1.outbox.events)
      (c.perform now call).1 := by
  have hworks := (perform_sendSteps c now call h).worksUnheard
  rw [queue_of_sends c now call h, ← hworks.events]
  exact hworks.tells

/-- What a move tells, and what it does to the modules. -/
theorem move_tells (c : Connection X Y) (m : Move X Y) :
    Tells c (c.takenBy m ++ (c.move m).outbox.events) (c.move m) := by
  cases m with
  | stir stimulus => exact .silent rfl rfl rfl
  | call now call =>
    cases call with
    | connect => exact (connect_worksUnheard c).tells
    | handshake infoHash peerId => exact (handshake_outcome c infoHash peerId).tells hX hY
    | process => exact (process_pollSteps c now).tells hX hY
    | disconnect => exact teardown_tells c
    | addModule m =>
      change Tells c (c.addModule m).1.outbox.events (c.addModule m).1
      rw [addModule]
      split
      · exact .silent rfl rfl rfl
      · refine .works [] (List.append_nil _).symm List.not_mem_nil (fun _ => rfl) rfl ?_
        exact Evolves.append (fun _ => .refl) c.modules [m]
    | setPieceCount count => exact .silent rfl rfl rfl
    | nextEvent => exact .silent (queue_of_nextEvent c now) rfl rfl
    | drainEvents => exact .silent (List.append_nil _) rfl rfl
    | send message => exact perform_tells_of_sends c now (.send message) trivial
    | sendBitfield pieces disguised =>
      exact perform_tells_of_sends c now (.sendBitfield pieces disguised) trivial
    | sendExtended name payload =>
      exact perform_tells_of_sends c now (.sendExtended name payload) trivial
    | sendFromRegistry name payload =>
      exact perform_tells_of_sends c now (.sendFromRegistry name payload) trivial
    | sendPeerExchange message =>
      exact perform_tells_of_sends c now (.sendPeerExchange message) trivial
    | grantAllowedFast host pieceCount =>
      exact perform_tells_of_sends c now (.grantAllowedFast host pieceCount) trivial

end Quiet

end Connection
end PeerLink
