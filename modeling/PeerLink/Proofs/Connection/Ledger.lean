import PeerLink.Proofs.Connection.Fifo
import PeerLink.Proofs.Connection.Greeting
import PeerLink.Proofs.Connection.Intake

/-!
# Ledgers

What a side says of itself is kept in two records: its own, where it is noted when a
message is queued, and that of its peer, where it is noted when the message is heard.
The two are the same fold over the messages, `Ledger.noteAll`: over all that were queued,
and over all that were handed on.
-/

namespace PeerLink

/-- What a side says of itself. -/
structure Ledger where
  choking : Bool
  interested : Bool
  /-- Bytes of blocks that it sent. -/
  bytes : UInt64
  deriving DecidableEq, Repr

namespace Ledger

def initial : Ledger := ⟨true, false, 0⟩

def note (ledger : Ledger) : Message → Ledger
  | .choke => { ledger with choking := true }
  | .unchoke => { ledger with choking := false }
  | .interested => { ledger with interested := true }
  | .notInterested => { ledger with interested := false }
  | .piece block => { ledger with bytes := ledger.bytes + UInt64.ofNat block.data.length }
  | _ => ledger

/-- Notes messages in order. -/
def noteAll (ledger : Ledger) (messages : List Message) : Ledger := messages.foldl note ledger

theorem noteAll_cons (ledger : Ledger) (message : Message) (rest : List Message) :
    ledger.noteAll (message :: rest) = (ledger.note message).noteAll rest := rfl

theorem noteAll_append (ledger : Ledger) (first second : List Message) :
    ledger.noteAll (first ++ second) = (ledger.noteAll first).noteAll second :=
  List.foldl_append

end Ledger

/-- The message says nothing of its sender that a ledger keeps. -/
def Message.IsNeutral (message : Message) : Prop := ∀ ledger : Ledger, ledger.note message = ledger

theorem Message.IsOfModule.isNeutral {message : Message} (h : message.IsOfModule) :
    message.IsNeutral := by
  cases message with
  | extended id payload => exact fun _ => rfl
  | allowedFast index => exact fun _ => rfl
  | _ => exact h.elim

theorem Ledger.noteAll_of_isNeutral {messages : List Message}
    (h : ∀ message ∈ messages, message.IsNeutral) (ledger : Ledger) :
    ledger.noteAll messages = ledger := by
  induction messages with
  | nil => rfl
  | cons message rest ih =>
    obtain ⟨hmessage, hrest⟩ := List.forall_mem_cons.mp h
    rw [noteAll_cons, hmessage]
    exact ih hrest

namespace ConnectionState

/-- What we say of ourselves. -/
def outward (state : ConnectionState) : Ledger :=
  ⟨state.choking.amChoking, state.choking.amInterested, state.bytesUploaded⟩

/-- What the peer said of itself. -/
def inward (state : ConnectionState) : Ledger :=
  ⟨state.choking.peerChoking, state.choking.peerInterested, state.bytesDownloaded⟩

theorem outward_noteSent (state : ConnectionState) (message : Message) :
    (state.noteSent message).outward = state.outward.note message := by
  cases message <;> rfl

theorem inward_noteSent (state : ConnectionState) (message : Message) :
    (state.noteSent message).inward = state.inward := by
  cases message <;> rfl

theorem outward_observe (state : ConnectionState) (event : Event) :
    (state.observe event).outward = state.outward := by
  cases event <;> rfl

theorem inward_observe_of_base? {message : Message} {event : Event}
    (h : message.base? = some event) (state : ConnectionState) :
    (state.observe event).inward = state.inward.note message := by
  cases message with
  | suggest | haveAll | haveNone | reject | allowedFast | extended => cases h
  | _ =>
    obtain rfl := Option.some.inj h
    rfl

theorem outward_observeAll (state : ConnectionState) (events : List Event) :
    (state.observeAll events).outward = state.outward := by
  induction events generalizing state with
  | nil => rfl
  | cons event rest ih => exact (ih (state.observe event)).trans (outward_observe state event)

theorem advancePhase_ledgers (state : ConnectionState) :
    state.advancePhase.outward = state.outward ∧ state.advancePhase.inward = state.inward := by
  rw [advancePhase]
  split
  · exact ⟨rfl, rfl⟩
  · split <;> exact ⟨rfl, rfl⟩

theorem outward_foldl_noteSent (state : ConnectionState) (messages : List Message) :
    (messages.foldl noteSent state).outward = state.outward.noteAll messages := by
  induction messages generalizing state with
  | nil => rfl
  | cons message rest ih =>
    rw [List.foldl_cons, ih, outward_noteSent]
    rfl

end ConnectionState

/-- The event says nothing of the peer that a ledger keeps. -/
def Event.IsNeutral (event : Event) : Prop :=
  ∀ state : ConnectionState, (state.observe event).inward = state.inward

theorem Event.IsOfModule.isNeutral {event : Event} (h : event.IsOfModule) : event.IsNeutral := by
  cases event with
  | choke | unchoke | interested | notInterested | piece => exact h.elim
  | _ => exact fun _ => rfl

theorem ConnectionState.inward_observeAll {events : List Event}
    (h : ∀ event ∈ events, event.IsNeutral) (state : ConnectionState) :
    (state.observeAll events).inward = state.inward := by
  induction events generalizing state with
  | nil => rfl
  | cons event rest ih =>
    obtain ⟨hevent, hrest⟩ := List.forall_mem_cons.mp h
    exact (ih hrest (state.observe event)).trans (hevent state)

/-! ## What modules add -/

namespace Output

/-- All frames that are queued are those of messages that no ledger keeps. -/
abbrev SaysNothing (output : Output) : Prop :=
  output.Within fun frame => ∃ message : Message, message.IsNeutral ∧ frame = message.toFrame

/-- What is queued touches no ledger, on neither side. -/
def IsNeutral (output : Output) : Prop := output.SaysNothing ∧ output.Raises Event.IsNeutral

theorem admits_saysNothing : Admits SaysNothing :=
  admits_within fun message h => ⟨message, h.isNeutral, rfl⟩

theorem admits_isNeutral : Admits IsNeutral :=
  admits_saysNothing.and (admits_raises fun _ h => h.isNeutral)

theorem SaysNothing.exists_messages {output : Output} (h : output.SaysNothing) :
    ∃ messages : List Message, output.frames.map Frame.encode = messages.map Message.encode ∧
      ∀ ledger : Ledger, ledger.noteAll messages = ledger := by
  suffices hmessages : ∃ messages : List Message, output.frames = messages.map Message.toFrame ∧
      ∀ message ∈ messages, message.IsNeutral by
    obtain ⟨messages, hframes, hneutral⟩ := hmessages
    refine ⟨messages, ?_, fun ledger => ledger.noteAll_of_isNeutral hneutral⟩
    rw [hframes, List.map_map]
    rfl
  rw [SaysNothing, Within] at h
  generalize output.frames = frames at h ⊢
  induction frames with
  | nil => exact ⟨[], rfl, List.forall_mem_nil _⟩
  | cons frame rest ih =>
    obtain ⟨⟨message, hmessage, rfl⟩, hrest⟩ := List.forall_mem_cons.mp h
    obtain ⟨messages, rfl, hneutral⟩ := ih hrest
    exact ⟨message :: messages, rfl, List.forall_mem_cons.mpr ⟨hmessage, hneutral⟩⟩

end Output

namespace Session

variable {X Y : Type}

theorem ledgers_accept (session : Session X Y) (handshake : Handshake) :
    (session.accept handshake).next.state.outward = session.state.outward ∧
      (session.accept handshake).next.state.inward = session.state.inward := by
  rw [accept]
  split
  · exact ⟨rfl, rfl⟩
  · exact ConnectionState.advancePhase_ledgers _

variable [Capability X] [SubProtocol Y]

theorem outward_hear (session : Session X Y) (frame : Frame) :
    (session.hear frame).next.state.outward = session.state.outward := by
  have htell : ∀ event, (session.tell event).next.state.outward = session.state.outward :=
    session.state.outward_observe
  cases frame with
  | keepAlive => exact htell _
  | message command length payload =>
    rw [hear]
    split
    · exact htell _
    · split
      · exact htell _
      · rfl
      · rw [offer]
        split
        · rfl
        · exact session.state.outward_observeAll _
        · rfl

section Neutral

variable (hX : Capability.Queues Output.IsNeutral X) (hY : SubProtocol.Queues Output.IsNeutral Y)
include hX hY

/-- A message that is heard is noted. -/
theorem inward_hear (session : Session X Y) {message : Message}
    (hvalid : message.toFrame.IsValid) :
    (session.hear message.toFrame).next.state.inward = session.state.inward.note message := by
  cases hbase : message.base? with
  | some event =>
    rw [session.hear_of_base? hbase hvalid]
    exact ConnectionState.inward_observe_of_base? hbase session.state
  | none =>
    have hneutral : message.IsNeutral := by
      cases message with
      | suggest | haveAll | haveNone | reject | allowedFast | extended => exact fun _ => rfl
      | _ => cases hbase
    obtain ⟨command, payload, -, hoffer⟩ := session.exists_hear_of_base?_eq_none hbase
    have hevents := ((AnyModule.queues Output.admits_isNeutral hX hY).offer
      Output.admits_isNeutral.toAdmitsMessages session.state command.toByte payload
      session.modules).2
    rw [hoffer, hneutral, offer]
    split
    · rfl
    · exact ConnectionState.inward_observeAll hevents session.state
    · rfl

theorem inward_hearAll {messages : List Message}
    (hvalid : ∀ message ∈ messages, message.toFrame.IsValid) {session : Session X Y}
    (hok : (session.hearAll (messages.map Message.toFrame)).result = .ok ()) :
    (session.hearAll (messages.map Message.toFrame)).next.state.inward =
      session.state.inward.noteAll messages := by
  induction messages generalizing session with
  | nil => rfl
  | cons message rest ih =>
    obtain ⟨hmessage, hrest⟩ := List.forall_mem_cons.mp hvalid
    rw [List.map_cons] at hok ⊢
    cases hheard : (session.hear message.toFrame).result with
    | error failure =>
      rw [hearAll_cons_of_error hheard] at hok
      cases hok
    | ok =>
      rw [hearAll_cons_of_ok hheard] at hok ⊢
      rw [Ledger.noteAll_cons, ← inward_hear hX hY session hmessage]
      exact ih hrest hok

end Neutral

end Session

namespace Connection

variable {X Y : Type} {c d : Connection X Y}

/-! ## What is said -/

/-- The stream of a connection: nothing yet, or its handshake and then messages. -/
inductive Spoke (c : Connection X Y) (queue : List Bytes) : List Message → Prop where
  | silent (hsent : c.state.handshakeSent = false)
      (hown : c.state.standing.ownHandshake? = none) (hqueue : queue = []) : Spoke c queue []
  | spoke {messages : List Message} (own : Handshake) (hsent : c.state.handshakeSent = true)
      (hown : c.state.standing.ownHandshake? = some own)
      (hqueue : queue = own.encode :: messages.map Message.encode) : Spoke c queue messages

theorem Spoke.flatten_queue {queue : List Bytes} {messages : List Message}
    (h : c.Spoke queue messages) :
    queue.flatten = (c.state.standing.ownHandshake?.map Handshake.encode).getD [] ++
      messages.flatMap Message.encode := by
  cases h with
  | silent _ hown hqueue =>
    rw [hqueue, hown]
    rfl
  | spoke own _ hown hqueue =>
    rw [hqueue, hown, List.flatMap_def]
    rfl

/-- A stream with a handshake in front is that of a connection that queued it. -/
theorem Spoke.ownHandshake?_of_encode {queue : List Bytes} {messages : List Message}
    {peer : Handshake} {rest : Bytes} (h : c.Spoke queue messages)
    (hstream : peer.encode ++ rest = queue.flatten) :
    c.state.standing.ownHandshake? = some peer ∧ rest = messages.flatMap Message.encode := by
  rw [h.flatten_queue] at hstream
  cases h with
  | silent _ hown _ =>
    rw [hown] at hstream
    have hlength := congrArg List.length hstream
    rw [List.length_append, Handshake.length_encode] at hlength
    simp [Handshake.size] at hlength
  | spoke own _ hown _ =>
    rw [hown] at hstream
    obtain ⟨rfl, hbehind⟩ := Handshake.eq_of_encode_append hstream
    exact ⟨hown, hbehind⟩

variable [Capability X] [SubProtocol Y]

/-- From `c` to `d` the queue grows by these messages, behind our handshake if it is queued
now. -/
inductive Speaks (c : Connection X Y) (queue : List Bytes) (messages : List Message)
    (d : Connection X Y) : Prop where
  | goesOn (hqueue : queue = messages.map Message.encode) (hsteps : Steps c d)
  | begins (own : Handshake) (hunsent : c.state.handshakeSent = false)
      (hqueue : queue = own.encode :: messages.map Message.encode)
      (hsent : d.state.handshakeSent = true) (hown : d.state.standing.ownHandshake? = some own)

/-- The stream goes on with what is queued.  Messages in front of our handshake would break
it. -/
theorem Spoke.speaks {queue more : List Bytes} {messages said : List Message}
    (h : c.Spoke queue messages) (hspeaks : Speaks c more said d)
    (hquiet : d.state.handshakeSent = false → (queue ++ more).flatten = []) :
    d.Spoke (queue ++ more) (messages ++ said) := by
  cases h with
  | silent hunsent hunknown hqueue =>
    rw [hqueue, List.nil_append] at hquiet ⊢
    cases hspeaks with
    | begins own _ hbegun hsent hown => exact .spoke own hsent hown hbegun
    | goesOn hgone hsteps =>
      obtain ⟨hstill, hsame⟩ := hsteps.keeps_greeting
      have hstill := hstill.trans hunsent
      obtain rfl : said = [] := by
        rw [List.eq_nil_iff_forall_not_mem]
        intro message hmessage
        have hempty := List.flatten_eq_nil_iff.mp (hquiet hstill) message.encode
        exact message.encode_ne_nil (hempty (hgone ▸ List.mem_map_of_mem hmessage))
      exact .silent hstill (hsame.trans hunknown) hgone
  | spoke own hsent hown hqueue =>
    cases hspeaks with
    | begins _ hunsent =>
      rw [hsent] at hunsent
      cases hunsent
    | goesOn hgone hsteps =>
      obtain ⟨hstill, hsame⟩ := hsteps.keeps_greeting
      refine .spoke own (hstill.trans hsent) (hsame.trans hown) ?_
      rw [hqueue, hgone, List.map_append, List.cons_append]

theorem outward_teardown (c : Connection X Y) :
    c.teardown.state.outward = c.state.outward ∧ c.teardown.state.inward = c.state.inward := by
  rw [teardown]
  split <;> exact ⟨rfl, rfl⟩

theorem PollStep.outward_eq (h : PollStep c d) : d.state.outward = c.state.outward := by
  cases h with
  | keepAlive now hup =>
    rw [Connection.keepAlive]
    split <;> rfl
  | receive hup => rfl
  | rebuffer buffer hup => rfl
  | acceptHandshake handshake hup hreceived =>
    rw [Connection.acceptHandshake]
    split
    · rfl
    · exact (ConnectionState.advancePhase_ledgers _).1
  | dispatch frame hup hreceived =>
    rw [dispatch_eq_absorb]
    exact c.session.outward_hear frame
  | flush hup => rfl
  | noteIdle received hup =>
    rw [Connection.noteIdle]
    split <;> rfl
  | teardown hup => exact c.outward_teardown.1

theorem PollSteps.outward_eq (h : PollSteps c d) : d.state.outward = c.state.outward := by
  induction h with
  | refl => rfl
  | tail _ hstep ih => exact hstep.outward_eq.trans ih

theorem greet_ledgers (c : Connection X Y) (infoHash : Digest) (peerId : PeerId) :
    (c.greet infoHash peerId).state.outward = c.state.outward ∧
      (c.greet infoHash peerId).state.inward = c.state.inward :=
  ConnectionState.advancePhase_ledgers _

section Saying

variable (hX : Capability.Queues Output.SaysNothing X)
  (hY : SubProtocol.Queues Output.SaysNothing Y)
include hX hY

theorem process_speaks (c : Connection X Y) (now : Nat) :
    ∃ messages, Speaks c (c.queuedInRound now) messages (c.process now).1 ∧
      (c.process now).1.state.outward = c.state.outward.noteAll messages := by
  have hsteps := process_pollSteps c now
  have hsays := Listener.output_listen Output.admits_saysNothing hX hY
    (fun _ => List.forall_mem_nil _) (c.listener.feed c.arrival.data)
  obtain ⟨replies, hreplies, hneutral⟩ := hsays.exists_messages
  have hsilent : ∀ messages : List Message, c.queuedInRound now = messages.map Message.encode →
      (∀ ledger : Ledger, ledger.noteAll messages = ledger) →
      Speaks c (c.queuedInRound now) messages (c.process now).1 ∧
        (c.process now).1.state.outward = c.state.outward.noteAll messages := by
    intro messages hqueue hnothing
    exact ⟨.goesOn hqueue hsteps.steps, hsteps.outward_eq.trans (hnothing _).symm⟩
  have hdue : ∃ due : List Message, c.keepAliveDue now = due.map Message.encode ∧
      ∀ ledger : Ledger, ledger.noteAll due = ledger := by
    rw [keepAliveDue]
    split
    · exact ⟨[.keepAlive], rfl, fun _ => rfl⟩
    · exact ⟨[], rfl, fun _ => rfl⟩
  obtain ⟨due, hkeepAlive, hdue⟩ := hdue
  rw [queuedInRound] at hsilent ⊢
  split at hsilent
  · next hopen =>
    rw [if_pos hopen]
    split at hsilent
    · next hfault =>
      rw [if_pos hfault]
      refine ⟨due ++ replies, hsilent _ ?_ ?_⟩
      · rw [hkeepAlive, hreplies, List.map_append]
      · intro ledger
        rw [Ledger.noteAll_append, hdue, hneutral]
    · next hfault =>
      rw [if_neg hfault]
      exact ⟨due, hsilent _ (by rw [hkeepAlive, List.append_nil]) hdue⟩
  · next hclosed =>
    rw [if_neg hclosed]
    exact ⟨[], hsilent _ rfl fun _ => rfl⟩

theorem handshake_speaks (c : Connection X Y) (infoHash : String) (peerId : Bytes) :
    ∃ messages, Speaks c (c.queuedInGreeting infoHash peerId) messages
        (c.handshake infoHash peerId).1 ∧
      (c.handshake infoHash peerId).1.state.outward = c.state.outward.noteAll messages := by
  rw [queuedInGreeting, handshake]
  cases harguments : c.handshakeArguments infoHash peerId with
  | error failure => exact ⟨[], .goesOn rfl .refl, rfl⟩
  | ok arguments =>
    obtain ⟨digest, id⟩ := arguments
    obtain ⟨hup, hunsent⟩ := handshakeArguments_eq_ok harguments
    have hsays : ((c.greet digest id).introduce
        ⟨Capability.reserved c.modules, digest, id⟩).output.SaysNothing :=
      Reply.output_each Output.admits_saysNothing.toAdmitsMessages
        (fun m => (AnyModule.queues Output.admits_saysNothing hX hY).onHandshake m _ _) c.modules
    obtain ⟨messages, hmessages, hneutral⟩ := hsays.exists_messages
    have hbegins : ∀ d : Connection X Y,
        OwnerSteps (c.greet digest id) d → d.state.outward = c.state.outward →
        Speaks c (Handshake.encode ⟨Capability.reserved c.modules, digest, id⟩ ::
          messages.map Message.encode) messages d ∧
            d.state.outward = c.state.outward.noteAll messages := by
      intro d hsteps hsame
      obtain ⟨hsent, hown⟩ := hsteps.steps.keeps_greeting
      obtain ⟨hgreeted, hhandshake⟩ := greet_ownHandshake c digest id
      exact ⟨.begins _ hunsent rfl (hsent.trans hgreeted) (hown.trans hhandshake),
        hsame.trans (hneutral _).symm⟩
    have hintroduce := introduce_ownerStep hup digest id
    have hintroduced : (c.introduced digest id).state.outward = c.state.outward :=
      (greet_ledgers c digest id).1
    dsimp only
    split
    · exact ⟨[], .goesOn rfl (teardown_ownerSteps c).steps, c.outward_teardown.1⟩
    · rw [hmessages]
      rcases queueHandshake_cases c digest id with ⟨-, hqueued⟩ | ⟨failure, -, hqueued⟩
      · rw [hqueued]
        exact ⟨messages, hbegins _ (.single hintroduce) hintroduced⟩
      · rw [hqueued]
        exact ⟨messages, hbegins _ (.head hintroduce (teardown_ownerSteps _))
          ((outward_teardown _).1.trans hintroduced)⟩

/-- A move queues messages, behind our handshake if it queues that, and notes them. -/
theorem move_speaks (c : Connection X Y) (m : Move X Y) :
    ∃ messages, Speaks c (c.queuedBy m) messages (c.move m) ∧
      (c.move m).state.outward = c.state.outward.noteAll messages := by
  have hsilent : c.queuedBy m = [] → (c.move m).state.outward = c.state.outward →
      Steps c (c.move m) → ∃ messages, Speaks c (c.queuedBy m) messages (c.move m) ∧
        (c.move m).state.outward = c.state.outward.noteAll messages :=
    fun hqueue hsame hsteps => ⟨[], .goesOn hqueue hsteps, hsame⟩
  have hsteps := move_steps_of_ne c (m := m)
  cases m using Move.sendsCases with
  | stir stimulus => exact hsilent rfl rfl (hsteps fun _ _ _ h => by cases h)
  | connect now =>
    refine hsilent rfl ?_ (connect_ownerSteps c).steps
    change c.connect.1.state.outward = _
    rw [connect]
    split
    · rfl
    · split <;> rfl
  | handshake now infoHash peerId => exact handshake_speaks hX hY c infoHash peerId
  | process now => exact process_speaks hX hY c now
  | disconnect now => exact hsilent rfl c.outward_teardown.1 (teardown_ownerSteps c).steps
  | addModule now m =>
    refine hsilent rfl ?_ (hsteps fun _ _ _ h => by cases h)
    change (c.addModule m).1.state.outward = _
    rw [addModule]
    split <;> rfl
  | setPieceCount now count => exact hsilent rfl rfl (hsteps fun _ _ _ h => by cases h)
  | nextEvent now => exact hsilent rfl rfl (hsteps fun _ _ _ h => by cases h)
  | drainEvents now => exact hsilent rfl rfl (hsteps fun _ _ _ h => by cases h)
  | sends now call h =>
    have hposts := perform_posts c now h
    refine ⟨c.messages call, .goesOn (queuedBy_of_sends c now h)
      (perform_sendSteps c now call h).ownerSteps.steps, ?_⟩
    change (c.perform now call).1.state.outward = _
    rw [hposts.state, ConnectionState.outward_foldl_noteSent]

omit hX hY in
/-- A connection that holds back has queued nothing as long as its handshake is not. -/
theorem HoldsBack.queued_eq_nil {connected : Bool} {config : Config} {now : Nat}
    {moves : List (Move X Y)} :
    let start : Connection X Y := new (.new connected) config now
    HoldsBack start moves → (start.play moves).isDown = false →
      (start.play moves).state.handshakeSent = false → (start.queued moves).flatten = [] := by
  intro start hholds hup hunsent
  have hstream := ((play_emits start moves).up hup).2
  have hsilent : (start.play moves).outgoing = [] :=
    hholds moves (List.prefix_refl moves) hunsent
  rw [hsilent] at hstream
  exact hstream.symm

omit hX hY in
/-- The stream of a connection that holds back goes on with what a move queues. -/
theorem HoldsBack.spoke_concat {connected : Bool} {config : Config} {now : Nat}
    {moves : List (Move X Y)} {m : Move X Y} {messages said : List Message} :
    let start : Connection X Y := new (.new connected) config now
    HoldsBack start (moves ++ [m]) → (start.play (moves ++ [m])).isDown = false →
      (start.play moves).Spoke (start.queued moves) messages →
      Speaks (start.play moves) ((start.play moves).queuedBy m) said ((start.play moves).move m) →
      (start.play (moves ++ [m])).Spoke (start.queued (moves ++ [m])) (messages ++ said) := by
  intro start hholds hup hspoke hspeaks
  have hnothing := hholds.queued_eq_nil hup
  rw [play_concat] at hnothing ⊢
  rw [queued, along_concat] at hnothing ⊢
  exact hspoke.speaks hspeaks hnothing

/-- A connection that holds back and is up has queued nothing, or its handshake and then
the messages that it noted. -/
theorem play_speaks (connected : Bool) (config : Config) (now : Nat) (moves : List (Move X Y)) :
    let start : Connection X Y := new (.new connected) config now
    HoldsBack start moves → (start.play moves).isDown = false →
      ∃ messages, (start.play moves).Spoke (start.queued moves) messages ∧
        (start.play moves).state.outward = Ledger.initial.noteAll messages := by
  intro start
  induction moves using List.reverseRecOn with
  | nil => exact fun _ _ => ⟨[], .silent rfl rfl rfl, rfl⟩
  | append_singleton moves m ih =>
    intro hholds hup
    have hlive : (start.play moves).isDown = false := by
      rw [play_concat] at hup
      exact ((move_emits (start.play moves) m).up hup).1
    obtain ⟨messages, hspoke, hledger⟩ := ih hholds.earlier hlive
    obtain ⟨said, hspeaks, hnoted⟩ := move_speaks hX hY (start.play moves) m
    refine ⟨messages ++ said, hholds.spoke_concat hup hspoke hspeaks, ?_⟩
    rw [play_concat, hnoted, hledger, Ledger.noteAll_append]

end Saying

/-! ## What is heard -/

theorem OwnerStep.inward_eq (h : OwnerStep c d) : d.state.inward = c.state.inward := by
  cases h with
  | useTransport transport hwritten => rfl
  | opened hup => rfl
  | addModule m hsent => rfl
  | setPieceCount count => rfl
  | takeEvents events hevents => rfl
  | pick picker => rfl
  | send now message hup =>
    rw [Connection.send]
    split
    · rfl
    · exact c.state.inward_noteSent message
  | sendFromRegistry hsent =>
    obtain ⟨reply, hused⟩ := exists_settle_of_sendFromRegistry? hsent
    rw [hused]
    rfl
  | sendPeerExchange hsent =>
    obtain ⟨reply, hused⟩ := exists_settle_of_sendPeerExchange? hsent
    rw [hused]
    rfl
  | grantAllowedFast hgranted =>
    obtain ⟨reply, hused⟩ := exists_settle_of_grantAllowedFast? hgranted
    rw [hused]
    rfl
  | introduce handshake hup hsent => rfl
  | teardown hup => exact c.outward_teardown.2

theorem OwnerSteps.inward_eq (h : OwnerSteps c d) : d.state.inward = c.state.inward := by
  induction h with
  | refl => rfl
  | tail _ hstep ih => exact hstep.inward_eq.trans ih

section Hearing

variable (hX : Capability.Queues Output.IsNeutral X) (hY : SubProtocol.Queues Output.IsNeutral Y)
include hX hY

/-- A move after which the connection is up notes the messages that it hands on. -/
theorem move_notes (c : Connection X Y) (m : Move X Y) (hup : (c.move m).isDown = false)
    {told : List Message} (hframes : c.framesIn m = told.map Message.toFrame)
    (hvalid : ∀ message ∈ told, message.toFrame.IsValid) :
    (c.move m).state.inward = c.state.inward.noteAll told := by
  have hidle : c.framesIn m = [] → (c.move m).state.inward = c.state.inward →
      (c.move m).state.inward = c.state.inward.noteAll told := by
    intro hnone hsame
    rw [hnone] at hframes
    rw [hsame, List.map_eq_nil_iff.mp hframes.symm]
    rfl
  by_cases hm : ∃ now, m = .call now .process
  · obtain ⟨now, rfl⟩ := hm
    change (c.process now).1.isDown = false at hup
    by_cases hopen : c.IsOpen
    · obtain ⟨hgoes, -⟩ := hopen.process_goesOn hup
      have hlistened := hopen.framesIn_process hup
      obtain ⟨opened, opening, hopened, hheard, hsession, -⟩ :=
        Listener.exists_opened_of_listen hgoes.result
      have hsame : opened.state.inward = c.state.inward := by
        rcases hopened with ⟨rfl, -⟩ | ⟨handshake, haccept⟩
        · rfl
        · have hledgers := (c.session.ledgers_accept handshake).2
          rw [show c.session.accept handshake = _ from haccept] at hledgers
          exact hledgers
      have hstate : (c.process now).1.state =
          (opened.hearAll (c.listener.feed c.arrival.data).frames).next.state :=
        congrArg (·.session.state) (hgoes.listener) |>.trans (congrArg Session.state hsession)
      change (c.process now).1.state.inward = _
      rw [← hlistened, hframes] at hheard hstate
      rw [hstate, Session.inward_hearAll hX hY hvalid hheard, hsame]
    · refine hidle (if_neg fun hall => hopen ⟨hall.1, hall.2.1⟩) ?_
      change (c.process now).1.state.inward = _
      rcases process_of_not_isOpen hopen now with hsame | hdown
      · rw [hsame]
      · rw [hdown]
        exact c.outward_teardown.2
  · have hm := not_exists.mp hm
    refine hidle ?_ ?_
    · cases m with
      | stir stimulus => rfl
      | call now call =>
        cases call with
        | process => exact absurd rfl (hm now)
        | _ => rfl
    · rcases move_ownerSteps c hm with hsteps | ⟨infoHash, peerId, -, -, hsteps⟩
      · exact hsteps.inward_eq
      · exact hsteps.inward_eq.trans (greet_ledgers c infoHash peerId).2

/-- A connection that is up has noted the messages that were handed on. -/
theorem play_notes (connected : Bool) (config : Config) (now : Nat) (moves : List (Move X Y))
    {told : List Message} :
    let start : Connection X Y := new (.new connected) config now
    (start.play moves).isDown = false → start.framesOf moves = told.map Message.toFrame →
      (∀ message ∈ told, message.toFrame.IsValid) →
      (start.play moves).state.inward = Ledger.initial.noteAll told := by
  intro start
  induction moves using List.reverseRecOn generalizing told with
  | nil =>
    intro _ hframes _
    rw [List.map_eq_nil_iff.mp hframes.symm]
    rfl
  | append_singleton moves m ih =>
    intro hup hframes hvalid
    rw [play_concat] at hup ⊢
    rw [framesOf_concat] at hframes
    obtain ⟨earlier, messages, rfl, hearlier, hmessages⟩ := List.map_eq_append_iff.mp hframes.symm
    obtain ⟨hfirst, hlast⟩ := List.forall_mem_append.mp hvalid
    have hlive := ((move_emits (start.play moves) m).up hup).1
    rw [move_notes hX hY _ m hup hmessages.symm hlast, ih hlive hearlier.symm hfirst,
      Ledger.noteAll_append]

end Hearing

end Connection
end PeerLink
