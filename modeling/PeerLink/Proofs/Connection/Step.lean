import Mathlib.Logic.Relation
import PeerLink.Connection.Call
import PeerLink.Proofs.ConnectionState
import PeerLink.Proofs.Except

/-!
# Runs, and the steps they are made of

A run is a list of moves: the owner calls, or the surroundings stir the
transport.  Every move is made of steps from a short list, `Connection.Step`,
except that a call of `handshake` which is accepted begins with
`Connection.greet`.  What every step preserves is therefore preserved by all
runs, up to what greeting does; `move_steps` is the one place where the calls
are taken apart.
-/

namespace PeerLink

/-- What can happen to a connection: a call at some time, or something that happens
to its transport. -/
inductive Move (X Y : Type) where
  | call (now : Nat) (call : Call X Y)
  | stir (stimulus : Transport.Stimulus)

/-- The calls that send something to the peer. -/
def Call.Sends {X Y : Type} : Call X Y → Prop
  | .send _ | .sendBitfield .. | .sendExtended .. | .sendFromRegistry .. | .sendPeerExchange _
  | .grantAllowedFast .. => True
  | _ => False

/-- The calls that send something can be treated alike. -/
@[elab_as_elim]
theorem Move.sendsCases {X Y : Type} {motive : Move X Y → Prop}
    (stir : ∀ stimulus, motive (.stir stimulus))
    (connect : ∀ now, motive (.call now .connect))
    (handshake : ∀ now infoHash peerId, motive (.call now (.handshake infoHash peerId)))
    (process : ∀ now, motive (.call now .process))
    (disconnect : ∀ now, motive (.call now .disconnect))
    (addModule : ∀ now m, motive (.call now (.addModule m)))
    (setPieceCount : ∀ now count, motive (.call now (.setPieceCount count)))
    (nextEvent : ∀ now, motive (.call now .nextEvent))
    (drainEvents : ∀ now, motive (.call now .drainEvents))
    (sends : ∀ now call, Call.Sends call → motive (.call now call)) (m : Move X Y) : motive m := by
  cases m with
  | stir stimulus => exact stir stimulus
  | call now call =>
    cases call with
    | connect => exact connect now
    | handshake infoHash peerId => exact handshake now infoHash peerId
    | process => exact process now
    | disconnect => exact disconnect now
    | addModule m => exact addModule now m
    | setPieceCount count => exact setPieceCount now count
    | nextEvent => exact nextEvent now
    | drainEvents => exact drainEvents now
    | _ => exact sends now _ trivial

namespace Connection

variable {X Y : Type}

/-! ## What leaves the handshakes alone -/

theorem isDown_eq_of_standing {c d : Connection X Y} (h : d.state.standing = c.state.standing) :
    d.isDown = c.isDown := by
  have hphase : d.state.phase = c.state.phase := congrArg Standing.phase h
  rw [isDown, isDown, hphase]

theorem standing_send (c : Connection X Y) (now : Nat) (message : Message) :
    (c.send now message).1.state.standing = c.state.standing := by
  rw [send]
  split
  · rfl
  · exact ConnectionState.standing_noteSent c.state message

theorem standing_keepAlive (c : Connection X Y) (now : Nat) :
    (c.keepAlive now).state.standing = c.state.standing := by
  rw [keepAlive]
  split <;> rfl

theorem standing_noteIdle (c : Connection X Y) (received : Nat) :
    (c.noteIdle received).state.standing = c.state.standing := by
  rw [noteIdle]
  split <;> rfl

theorem isDown_eq_false_iff {c : Connection X Y} :
    c.isDown = false ↔ c.state.phase ≠ .disconnected := by
  simp [isDown]

theorem standing_acceptHandshake (c : Connection X Y) (handshake : Handshake) :
    (c.acceptHandshake handshake).2.isSome ∧ (c.acceptHandshake handshake).1 = c ∨
      (c.acceptHandshake handshake).2 = none ∧
        (c.acceptHandshake handshake).1.state.standing =
          c.state.standing.accept handshake := by
  rw [acceptHandshake]
  split
  · exact .inl ⟨rfl, rfl⟩
  · exact .inr ⟨rfl, ConnectionState.standing_advancePhase _⟩

theorem acceptHandshake_isDown {c : Connection X Y} (hup : c.isDown = false)
    (handshake : Handshake) : (c.acceptHandshake handshake).1.isDown = false := by
  rcases standing_acceptHandshake c handshake with ⟨-, hsame⟩ | ⟨-, hstanding⟩
  · rw [hsame]
    exact hup
  · rw [isDown_eq_false_iff] at hup ⊢
    have hphase : (c.acceptHandshake handshake).1.state.phase =
        (c.state.standing.accept handshake).phase := congrArg Standing.phase hstanding
    rw [hphase]
    exact Standing.advancePhase_ne_disconnected hup

theorem acceptHandshake_received {c d : Connection X Y} {handshake : Handshake}
    (h : c.acceptHandshake handshake = (d, none)) : d.state.handshakeReceived = true := by
  rcases standing_acceptHandshake c handshake with ⟨hsome, -⟩ | ⟨-, hstanding⟩
  · simp [h] at hsome
  · rw [h] at hstanding
    exact (congrArg Standing.handshakeReceived hstanding).trans
      (Standing.handshakeReceived_advancePhase _)

/-! ## Operations on modules -/

theorem exists_settle_of_useModule? {c : Connection X Y} {α : Type}
    {act : ConnectionState → AnyModule X Y → Option (Reply (AnyModule X Y) α)}
    {used : Connection X Y × Except Failure α} (h : c.useModule? act = some used) :
    ∃ reply, Reply.first? (act c.state) c.modules = some reply ∧ used.1 = c.settle reply := by
  obtain ⟨reply, hreply, rfl⟩ := Option.map_eq_some_iff.mp h
  exact ⟨reply, hreply, rfl⟩

theorem exists_settle_of_useRegistry? {c : Connection X Y} {α : Type}
    {act : ConnectionState → Registry Y → Reply (Registry Y) α}
    {used : Connection X Y × Except Failure α} (h : c.useRegistry? act = some used) :
    ∃ reply : Reply (List (AnyModule X Y)) α, used.1 = c.settle reply := by
  obtain ⟨reply, -, hused⟩ := exists_settle_of_useModule? h
  exact ⟨reply, hused⟩

theorem exists_useRegistry?_of_useSub? {c : Connection X Y} {α : Type}
    {act : SubContext → AnySubProtocol Y → Option (Reply (AnySubProtocol Y) α)}
    {used : Connection X Y × Except Failure α} (h : c.useSub? act = some used) :
    ∃ result, c.useRegistry? (fun state registry =>
      match registry.use? state act with
      | some reply => reply.map some
      | none => .ok registry none .none) = some (used.1, result) := by
  rw [useSub?] at h
  split at h
  · next hregistry =>
    obtain rfl := Option.some.inj h
    exact ⟨_, hregistry⟩
  · cases h
  · next hregistry =>
    obtain rfl := Option.some.inj h
    exact ⟨_, hregistry⟩
  · cases h

theorem exists_settle_of_sendFromRegistry? {c : Connection X Y} {name : String}
    {payload : Bytes} {sent : Connection X Y × Except Failure Unit}
    (h : c.sendFromRegistry? name payload = some sent) :
    ∃ reply : Reply (List (AnyModule X Y)) Unit, sent.1 = c.settle reply :=
  exists_settle_of_useRegistry? h

theorem exists_settle_of_sendPeerExchange? {c : Connection X Y} {message : PeerExchange}
    {sent : Connection X Y × Except Failure Unit} (h : c.sendPeerExchange? message = some sent) :
    ∃ reply : Reply (List (AnyModule X Y)) (Option Unit), sent.1 = c.settle reply := by
  obtain ⟨result, hresult⟩ := exists_useRegistry?_of_useSub? h
  exact exists_settle_of_useRegistry? hresult

theorem exists_settle_of_grantAllowedFast? {c : Connection X Y} {host : Host}
    {pieceCount : UInt32} {granted : Connection X Y × Except Failure (List UInt32)}
    (h : c.grantAllowedFast? host pieceCount = some granted) :
    ∃ reply : Reply (List (AnyModule X Y)) (List UInt32), granted.1 = c.settle reply := by
  obtain ⟨reply, -, hgranted⟩ := exists_settle_of_useModule? h
  exact ⟨reply, hgranted⟩

/-! ## Sending -/

/-- What sending can do to a connection at a time. -/
inductive SendStep (c : Connection X Y) : Connection X Y → Prop where
  | pick (picker : Picker) : SendStep c { c with picker }
  | send (now : Nat) (message : Message) (hup : c.isDown = false) :
    SendStep c (c.send now message).1
  | sendFromRegistry {name : String} {payload : Bytes}
      {sent : Connection X Y × Except Failure Unit}
      (h : c.sendFromRegistry? name payload = some sent) : SendStep c sent.1
  | sendPeerExchange {message : PeerExchange} {sent : Connection X Y × Except Failure Unit}
      (h : c.sendPeerExchange? message = some sent) : SendStep c sent.1
  | grantAllowedFast {host : Host} {pieceCount : UInt32}
      {granted : Connection X Y × Except Failure (List UInt32)}
      (h : c.grantAllowedFast? host pieceCount = some granted) : SendStep c granted.1

abbrev SendSteps : Connection X Y → Connection X Y → Prop := Relation.ReflTransGen SendStep

theorem send_sendSteps (c : Connection X Y) (now : Nat) (message : Message) :
    SendSteps c (c.send now message).1 := by
  by_cases hdown : c.isDown
  · rw [send, if_pos hdown]
  · exact .single (.send now message (by simpa using hdown))

theorem sendAll_sendSteps (c : Connection X Y) (now : Nat) (messages : List Message) :
    SendSteps c (c.sendAll now messages).1 := by
  induction messages generalizing c with
  | nil => exact .refl
  | cons message rest ih =>
    have hsend := send_sendSteps c now message
    rw [sendAll]
    split
    · next d failure hd =>
      rw [hd] at hsend
      exact hsend
    · next d hd =>
      rw [hd] at hsend
      exact hsend.trans (ih d)

theorem sendBitfield_sendSteps (c : Connection X Y) (now : Nat) (pieces : Bitfield)
    (disguised : Bool) : SendSteps c (c.sendBitfield now pieces disguised).1 := by
  rw [sendBitfield, sendBitfieldWith]
  split
  · exact .head (.pick _) (sendAll_sendSteps _ now _)
  · exact send_sendSteps c now _

theorem answeredIfAny_sendSteps {α : Type} {c : Connection X Y} {f : α → Answer}
    {outcome? : Option (Connection X Y × α)}
    (h : ∀ outcome, outcome? = some outcome → SendStep c outcome.1) :
    SendSteps c (c.answeredIfAny f outcome?).1 := by
  cases outcome? with
  | none => exact .refl
  | some outcome => exact .single (h outcome rfl)

theorem sendExtended_sendSteps (c : Connection X Y) (name : String) (payload : Bytes) :
    SendSteps c (c.sendExtended name payload).1 := by
  rw [sendExtended]
  split
  · exact .refl
  · split
    · next sent hsent => exact .single (.sendFromRegistry hsent)
    · exact .refl

variable [Capability X] [SubProtocol Y]

theorem standing_offer (c : Connection X Y) (command : UInt8) (payload : Bytes) :
    (c.offer command payload).1.state.standing = c.state.standing := by
  rw [offer]
  split
  · rfl
  · exact ConnectionState.standing_observeAll c.state _
  · rfl

theorem standing_dispatch (c : Connection X Y) (frame : Frame) :
    (c.dispatch frame).1.state.standing = c.state.standing := by
  have htell : ∀ event, (c.tell event).state.standing = c.state.standing :=
    ConnectionState.standing_observe c.state
  cases frame with
  | keepAlive => exact htell _
  | message command length payload =>
    rw [dispatch]
    split
    · exact htell _
    · split
      · exact htell _
      · rfl
      · exact standing_offer c command payload

theorem isDown_teardown (c : Connection X Y) : c.teardown.isDown = true := by
  by_cases hdown : c.isDown = true
  · rw [teardown, if_pos hdown]
    exact hdown
  · rw [teardown, if_neg hdown]
    rfl

/-! ## Moves and steps -/

def move (c : Connection X Y) : Move X Y → Connection X Y
  | .call now call => (c.perform now call).1
  | .stir stimulus => c.stir stimulus

/-- The connection after some moves, oldest first. -/
def play (c : Connection X Y) (moves : List (Move X Y)) : Connection X Y :=
  moves.foldl move c

@[simp]
theorem play_nil (c : Connection X Y) : c.play [] = c := rfl

theorem play_append (c : Connection X Y) (first second : List (Move X Y)) :
    c.play (first ++ second) = (c.play first).play second := by
  simp [play]

theorem play_concat (c : Connection X Y) (moves : List (Move X Y)) (m : Move X Y) :
    c.play (moves ++ [m]) = (c.play moves).move m := by
  simp [play]

/-- What the moves of a run yield one after another, each on the connection that it is
made on. -/
def along {α : Type} (yield : Connection X Y → Move X Y → List α) (c : Connection X Y) :
    List (Move X Y) → List α
  | [] => []
  | m :: rest => yield c m ++ along yield (c.move m) rest

@[simp]
theorem along_nil {α : Type} (yield : Connection X Y → Move X Y → List α)
    (c : Connection X Y) : along yield c [] = [] := rfl

theorem along_append {α : Type} (yield : Connection X Y → Move X Y → List α)
    (c : Connection X Y) (first second : List (Move X Y)) :
    along yield c (first ++ second) = along yield c first ++ along yield (c.play first) second := by
  induction first generalizing c with
  | nil => rfl
  | cons m rest ih =>
    change yield c m ++ along yield (c.move m) (rest ++ second) = _
    rw [ih, ← List.append_assoc]
    rfl

theorem along_concat {α : Type} (yield : Connection X Y → Move X Y → List α)
    (c : Connection X Y) (moves : List (Move X Y)) (m : Move X Y) :
    along yield c (moves ++ [m]) = along yield c moves ++ yield (c.play moves) m := by
  rw [along_append]
  exact congrArg (along yield c moves ++ ·) (List.append_nil _)

/-! ## Steps -/

omit [Capability X] [SubProtocol Y] in
/-- A new connection is up. -/
theorem isDown_new (transport : Transport) (config : Config) (now : Nat) :
    (new transport config now : Connection X Y).isDown = false := by
  rw [isDown_eq_false_iff]
  change (if transport.connected then Phase.connected else .connecting) ≠ _
  split <;> decide

/-- Queues our handshake and notes it. -/
def greet (c : Connection X Y) (infoHash : Digest) (peerId : PeerId) : Connection X Y :=
  let handshake : Handshake := ⟨Capability.reserved c.modules, infoHash, peerId⟩
  { c with
    state := ConnectionState.advancePhase { c.state with
      infoHash := some infoHash
      localPeerId := some peerId
      reserved := handshake.reserved
      handshakeSent := true }
    outbox := c.outbox.pushBytes handshake.encode }

/-- Tells the modules that our handshake is queued. -/
def introduce (c : Connection X Y) (handshake : Handshake) : Reply (List (AnyModule X Y)) Unit :=
  Reply.each (fun m => Capability.onHandshake m c.state handshake) c.modules

/-- What a call other than `process`, or the surroundings, can do to a connection at
a time, apart from queueing its handshake. -/
inductive OwnerStep (c : Connection X Y) : Connection X Y → Prop where
  | useTransport (transport : Transport) (hwritten : transport.written = c.transport.written) :
    OwnerStep c { c with transport }
  | opened (hup : c.isDown = false) :
    OwnerStep c { c with state := { c.state with phase := .connected } }
  | addModule (m : AnyModule X Y) (hsent : c.state.handshakeSent = false) :
    OwnerStep c { c with modules := c.modules ++ [m] }
  | setPieceCount (count : Nat) : OwnerStep c (c.setPieceCount count)
  | takeEvents (events : List Event) (hevents : events <:+ c.outbox.events) :
    OwnerStep c { c with outbox := { c.outbox with events } }
  | pick (picker : Picker) : OwnerStep c { c with picker }
  | send (now : Nat) (message : Message) (hup : c.isDown = false) :
    OwnerStep c (c.send now message).1
  | sendFromRegistry {name : String} {payload : Bytes}
      {sent : Connection X Y × Except Failure Unit}
      (h : c.sendFromRegistry? name payload = some sent) : OwnerStep c sent.1
  | sendPeerExchange {message : PeerExchange} {sent : Connection X Y × Except Failure Unit}
      (h : c.sendPeerExchange? message = some sent) : OwnerStep c sent.1
  | grantAllowedFast {host : Host} {pieceCount : UInt32}
      {granted : Connection X Y × Except Failure (List UInt32)}
      (h : c.grantAllowedFast? host pieceCount = some granted) : OwnerStep c granted.1
  | introduce (handshake : Handshake) (hup : c.isDown = false)
      (hsent : c.state.handshakeSent = true) : OwnerStep c (c.settle (c.introduce handshake))
  | teardown (hup : c.isDown = false) : OwnerStep c c.teardown

/-- What a round of work can do to a connection at a time. -/
inductive PollStep (c : Connection X Y) : Connection X Y → Prop where
  | keepAlive (now : Nat) (hup : c.isDown = false) : PollStep c (c.keepAlive now)
  | receive (hup : c.isDown = false) : PollStep c c.receive.1
  | rebuffer (buffer : Reassembly) (hup : c.isDown = false) : PollStep c { c with buffer }
  | acceptHandshake (handshake : Handshake) (hup : c.isDown = false)
      (hreceived : c.state.handshakeReceived = false) : PollStep c (c.acceptHandshake handshake).1
  | dispatch (frame : Frame) (hup : c.isDown = false)
      (hreceived : c.state.handshakeReceived = true) : PollStep c (c.dispatch frame).1
  | flush (hup : c.isDown = false) : PollStep c c.flush.1
  | noteIdle (received : Nat) (hup : c.isDown = false) : PollStep c (c.noteIdle received)
  | teardown (hup : c.isDown = false) : PollStep c c.teardown

abbrev OwnerSteps : Connection X Y → Connection X Y → Prop := Relation.ReflTransGen OwnerStep

abbrev PollSteps : Connection X Y → Connection X Y → Prop := Relation.ReflTransGen PollStep

/-- One thing that a connection does, apart from queueing its handshake. -/
def Step (c d : Connection X Y) : Prop := OwnerStep c d ∨ PollStep c d

/-- Any number of steps. -/
abbrev Steps : Connection X Y → Connection X Y → Prop := Relation.ReflTransGen Step

theorem OwnerSteps.steps {c d : Connection X Y} (h : OwnerSteps c d) : Steps c d :=
  Relation.ReflTransGen.mono (fun _ _ => Or.inl) _ _ h

theorem PollSteps.steps {c d : Connection X Y} (h : PollSteps c d) : Steps c d :=
  Relation.ReflTransGen.mono (fun _ _ => Or.inr) _ _ h

theorem SendStep.ownerStep {c d : Connection X Y} (h : SendStep c d) : OwnerStep c d := by
  cases h with
  | pick picker => exact .pick picker
  | send now message hup => exact .send now message hup
  | sendFromRegistry hsent => exact .sendFromRegistry hsent
  | sendPeerExchange hsent => exact .sendPeerExchange hsent
  | grantAllowedFast hgranted => exact .grantAllowedFast hgranted

theorem SendSteps.ownerSteps {c d : Connection X Y} (h : SendSteps c d) : OwnerSteps c d :=
  Relation.ReflTransGen.mono (fun _ _ => SendStep.ownerStep) _ _ h

/-! ## The steps of a poll -/

theorem dispatchAll_pollSteps {c : Connection X Y} (hup : c.isDown = false)
    (hreceived : c.state.handshakeReceived = true) (frames : List Frame) :
    PollSteps c (c.dispatchAll frames).1 ∧
      (c.dispatchAll frames).1.state.standing = c.state.standing := by
  induction frames generalizing c with
  | nil => exact ⟨.refl, rfl⟩
  | cons frame rest ih =>
    have hstep : PollStep c (c.dispatch frame).1 := .dispatch frame hup hreceived
    have hstanding := standing_dispatch c frame
    rw [dispatchAll]
    split
    · next d failure hd =>
      rw [hd] at hstep hstanding
      exact ⟨.single hstep, hstanding⟩
    · next d hd =>
      rw [hd] at hstep hstanding
      obtain ⟨hsteps, hlater⟩ := ih ((isDown_eq_of_standing hstanding).trans hup)
        ((congrArg Standing.handshakeReceived hstanding).trans hreceived)
      exact ⟨.head hstep hsteps, hlater.trans hstanding⟩

theorem consumeFrames_pollSteps {c : Connection X Y} (hup : c.isDown = false)
    (hreceived : c.state.handshakeReceived = true) :
    PollSteps c c.consumeFrames.1 ∧ c.consumeFrames.1.state.standing = c.state.standing := by
  obtain ⟨hsteps, hstanding⟩ :=
    dispatchAll_pollSteps (c := { c with buffer := c.buffer.drain.rest }) hup hreceived
      c.buffer.drain.frames
  have hstep : PollStep c { c with buffer := c.buffer.drain.rest } := .rebuffer _ hup
  rw [consumeFrames]
  split
  · next d failure hd =>
    rw [hd] at hsteps hstanding
    exact ⟨.head hstep hsteps, hstanding⟩
  · next d hd =>
    rw [hd] at hsteps hstanding
    exact ⟨.head hstep hsteps, hstanding⟩

theorem consume_pollSteps {c : Connection X Y} (hup : c.isDown = false) :
    PollSteps c c.consume.1 ∧ c.consume.1.isDown = false := by
  rw [consume]
  split
  · next hreceived =>
    obtain ⟨hsteps, hstanding⟩ := consumeFrames_pollSteps hup hreceived
    exact ⟨hsteps, (isDown_eq_of_standing hstanding).trans hup⟩
  · next hreceived =>
    have hreceived : c.state.handshakeReceived = false := by simpa using hreceived
    split
    · exact ⟨.refl, hup⟩
    · exact ⟨.refl, hup⟩
    · next handshake buffer _ =>
      have hrebuffer : PollStep c { c with buffer } := .rebuffer _ hup
      have hstep : PollStep { c with buffer } (acceptHandshake { c with buffer } handshake).1 :=
        .acceptHandshake handshake hup hreceived
      have hdown := acceptHandshake_isDown (c := { c with buffer }) hup handshake
      split
      · next d failure hd =>
        rw [hd] at hstep hdown
        exact ⟨.head hrebuffer (.single hstep), hdown⟩
      · next d hd =>
        rw [hd] at hstep hdown
        obtain ⟨hsteps, hstanding⟩ := consumeFrames_pollSteps hdown (acceptHandshake_received hd)
        exact ⟨.head hrebuffer (.head hstep hsteps),
          (isDown_eq_of_standing hstanding).trans hdown⟩

theorem poll_pollSteps {c : Connection X Y} (hup : c.isDown = false) (now : Nat) :
    PollSteps c (c.poll now).1 ∧ (c.poll now).1.isDown = false := by
  have hkeep : (c.keepAlive now).isDown = false :=
    (isDown_eq_of_standing (standing_keepAlive c now)).trans hup
  have hreceive : PollSteps c (c.keepAlive now).receive.1 :=
    .tail (.single (.keepAlive now hup)) (.receive hkeep)
  have hreceived : (c.keepAlive now).receive.1.isDown = false := hkeep
  rw [poll]
  split
  · next d count failure hd =>
    rw [hd] at hreceive hreceived
    exact ⟨hreceive, hreceived⟩
  · next d count hd =>
    rw [hd] at hreceive hreceived
    obtain ⟨hconsume, hconsumed⟩ := consume_pollSteps hreceived
    split
    · next e failure he =>
      rw [he] at hconsume hconsumed
      exact ⟨hreceive.trans hconsume, hconsumed⟩
    · next e he =>
      rw [he] at hconsume hconsumed
      have hflush : PollStep e e.flush.1 := .flush hconsumed
      have hflushed : e.flush.1.isDown = false := hconsumed
      have hsteps := (hreceive.trans hconsume).tail hflush
      split
      · next f failure hf =>
        rw [hf] at hsteps hflushed
        exact ⟨hsteps, hflushed⟩
      · next f hf =>
        rw [hf] at hsteps hflushed
        exact ⟨hsteps.tail (.noteIdle count hflushed),
          (isDown_eq_of_standing (standing_noteIdle f count)).trans hflushed⟩

theorem teardown_pollSteps (c : Connection X Y) : PollSteps c c.teardown := by
  by_cases hdown : c.isDown
  · rw [teardown, if_pos hdown]
  · exact .single (.teardown (by simpa using hdown))

theorem process_pollSteps (c : Connection X Y) (now : Nat) : PollSteps c (c.process now).1 := by
  rw [process]
  split
  · exact .refl
  · next hup =>
    have hup : c.isDown = false := by simpa using hup
    split
    · split
      · exact .refl
      · exact teardown_pollSteps c
    · have hpoll := (poll_pollSteps hup now).1
      split
      · next d hd =>
        rw [hd] at hpoll
        exact hpoll
      · next d failure hd =>
        rw [hd] at hpoll
        exact hpoll.trans (teardown_pollSteps d)

/-! ## The steps of other calls -/

theorem teardown_ownerSteps (c : Connection X Y) : OwnerSteps c c.teardown := by
  by_cases hdown : c.isDown
  · rw [teardown, if_pos hdown]
  · exact .single (.teardown (by simpa using hdown))

theorem connect_ownerSteps (c : Connection X Y) : OwnerSteps c c.connect.1 := by
  rw [connect]
  split
  · exact .refl
  · next hup =>
    have hup : c.isDown = false := by simpa using hup
    have hwritten : c.transport.connect.1.written = c.transport.written := by
      rw [Transport.connect]
      split <;> rfl
    have hstep : OwnerStep c { c with transport := c.transport.connect.1 } :=
      .useTransport _ hwritten
    split
    · next transport failure ht =>
      rw [ht] at hstep
      exact .single hstep
    · next transport ht =>
      rw [ht] at hstep
      exact .tail (.single hstep) (.opened hup)

/-- A call that sends is made of steps that send. -/
theorem perform_sendSteps (c : Connection X Y) (now : Nat) (call : Call X Y) (h : call.Sends) :
    SendSteps c (c.perform now call).1 := by
  cases call with
  | send message => exact send_sendSteps c now message
  | sendBitfield pieces disguised => exact sendBitfield_sendSteps c now pieces disguised
  | sendExtended name payload => exact sendExtended_sendSteps c name payload
  | sendFromRegistry name payload => exact answeredIfAny_sendSteps fun _ => .sendFromRegistry
  | sendPeerExchange message => exact answeredIfAny_sendSteps fun _ => .sendPeerExchange
  | grantAllowedFast host pieceCount => exact answeredIfAny_sendSteps fun _ => .grantAllowedFast
  | _ => exact h.elim

theorem standing_greet (c : Connection X Y) (infoHash : Digest) (peerId : PeerId) :
    (c.greet infoHash peerId).state.standing =
      c.state.standing.greet ⟨Capability.reserved c.modules, infoHash, peerId⟩ :=
  ConnectionState.standing_advancePhase _

theorem greet_isDown {c : Connection X Y} (hup : c.isDown = false) (infoHash : Digest)
    (peerId : PeerId) : (c.greet infoHash peerId).isDown = false := by
  rw [isDown_eq_false_iff] at hup ⊢
  have hphase := congrArg Standing.phase (standing_greet c infoHash peerId)
  change (c.greet infoHash peerId).state.phase = _ at hphase
  rw [hphase]
  exact Standing.advancePhase_ne_disconnected hup

omit [Capability X] [SubProtocol Y] in
theorem handshakeArguments_eq_ok {c : Connection X Y} {infoHash : String} {peerId : Bytes}
    {arguments : Digest × PeerId} (h : c.handshakeArguments infoHash peerId = .ok arguments) :
    c.isDown = false ∧ c.state.handshakeSent = false := by
  rw [handshakeArguments] at h
  obtain ⟨digest, -, h⟩ := bind_eq_ok_iff.mp h
  obtain ⟨id, -, h⟩ := bind_eq_ok_iff.mp h
  split at h
  · cases h
  · next hup =>
    split at h
    · cases h
    · next hsent => exact ⟨by simpa using hup, by simpa using hsent⟩

/-- The connection once our handshake is queued and the modules had their say. -/
def introduced (c : Connection X Y) (infoHash : Digest) (peerId : PeerId) : Connection X Y :=
  (c.greet infoHash peerId).settle
    ((c.greet infoHash peerId).introduce ⟨Capability.reserved c.modules, infoHash, peerId⟩)

/-- A module that fails to have its say closes the connection. -/
theorem queueHandshake_cases (c : Connection X Y) (infoHash : Digest) (peerId : PeerId) :
    let reply := (c.greet infoHash peerId).introduce
      ⟨Capability.reserved c.modules, infoHash, peerId⟩
    reply.result = .ok () ∧
        c.queueHandshake infoHash peerId = (c.introduced infoHash peerId, .ok ()) ∨
      ∃ failure, reply.result = .error failure ∧
        c.queueHandshake infoHash peerId =
          ((c.introduced infoHash peerId).teardown, .error failure) := by
  intro reply
  rw [queueHandshake]
  dsimp only
  split
  · next hintroduced => exact .inl ⟨hintroduced, rfl⟩
  · next failure hfailed => exact .inr ⟨failure, hfailed, rfl⟩

/-- What a call of `handshake` can come to. -/
inductive HandshakeOutcome (c : Connection X Y) : Connection X Y → Prop where
  | refused : HandshakeOutcome c c
  | mismatch (hup : c.isDown = false) : HandshakeOutcome c c.teardown
  | introduced (infoHash : Digest) (peerId : PeerId) (hup : c.isDown = false)
      (hsent : c.state.handshakeSent = false) : HandshakeOutcome c (c.introduced infoHash peerId)
  | failed (infoHash : Digest) (peerId : PeerId) (hup : c.isDown = false)
      (hsent : c.state.handshakeSent = false) :
    HandshakeOutcome c (c.introduced infoHash peerId).teardown

theorem handshake_outcome (c : Connection X Y) (infoHash : String) (peerId : Bytes) :
    HandshakeOutcome c (c.handshake infoHash peerId).1 := by
  rw [handshake]
  split
  · exact .refused
  · next infoHash' peerId' harguments =>
    obtain ⟨hup, hsent⟩ := handshakeArguments_eq_ok harguments
    split
    · exact .mismatch hup
    · rcases queueHandshake_cases c infoHash' peerId' with ⟨-, hqueued⟩ | ⟨failure, -, hqueued⟩
      · rw [hqueued]
        exact .introduced infoHash' peerId' hup hsent
      · rw [hqueued]
        exact .failed infoHash' peerId' hup hsent

theorem introduce_ownerStep {c : Connection X Y} (hup : c.isDown = false) (infoHash : Digest)
    (peerId : PeerId) : OwnerStep (c.greet infoHash peerId) (c.introduced infoHash peerId) := by
  have hsent : (c.greet infoHash peerId).state.handshakeSent = true :=
    (congrArg Standing.handshakeSent (standing_greet c infoHash peerId)).trans
      (Standing.handshakeSent_advancePhase _)
  exact .introduce _ (greet_isDown hup infoHash peerId) hsent

theorem HandshakeOutcome.ownerSteps {c d : Connection X Y} (h : HandshakeOutcome c d) :
    OwnerSteps c d ∨
      ∃ infoHash peerId, c.isDown = false ∧ c.state.handshakeSent = false ∧
        OwnerSteps (c.greet infoHash peerId) d := by
  cases h with
  | refused => exact .inl .refl
  | mismatch hup => exact .inl (teardown_ownerSteps c)
  | introduced infoHash peerId hup hsent =>
    exact .inr ⟨infoHash, peerId, hup, hsent, .single (introduce_ownerStep hup infoHash peerId)⟩
  | failed infoHash peerId hup hsent =>
    exact .inr ⟨infoHash, peerId, hup, hsent,
      .head (introduce_ownerStep hup infoHash peerId) (teardown_ownerSteps _)⟩

/-- A move other than a round and a handshake is made of steps of the owner. -/
theorem move_ownerSteps_of_ne (c : Connection X Y) {m : Move X Y}
    (hround : ∀ now, m ≠ .call now .process)
    (hm : ∀ now infoHash peerId, m ≠ .call now (.handshake infoHash peerId)) :
    OwnerSteps c (c.move m) := by
  cases m using Move.sendsCases with
  | stir stimulus =>
    have hwritten : (c.transport.stir stimulus).written = c.transport.written := by
      cases stimulus <;> rfl
    exact .single (.useTransport _ hwritten)
  | connect now => exact connect_ownerSteps c
  | handshake now infoHash peerId => exact absurd rfl (hm now infoHash peerId)
  | process now => exact absurd rfl (hround now)
  | disconnect now => exact teardown_ownerSteps c
  | addModule now m =>
    change OwnerSteps c (c.addModule m).1
    rw [addModule]
    split
    · exact .refl
    · next hsent => exact .single (.addModule m (by simpa using hsent))
  | setPieceCount now count => exact .single (.setPieceCount count)
  | nextEvent now => exact .single (.takeEvents _ (List.tail_suffix _))
  | drainEvents now => exact .single (.takeEvents _ List.nil_suffix)
  | sends now call h => exact (perform_sendSteps c now call h).ownerSteps

/-- A move other than `process` is made of steps of the owner, or it is an accepted
handshake: then the connection was up and greets first. -/
theorem move_ownerSteps (c : Connection X Y) {m : Move X Y} (hm : ∀ now, m ≠ .call now .process) :
    OwnerSteps c (c.move m) ∨
      ∃ infoHash peerId, c.isDown = false ∧ c.state.handshakeSent = false ∧
        OwnerSteps (c.greet infoHash peerId) (c.move m) := by
  by_cases hhandshake : ∃ now infoHash peerId, m = .call now (.handshake infoHash peerId)
  · obtain ⟨now, infoHash, peerId, rfl⟩ := hhandshake
    exact (handshake_outcome c infoHash peerId).ownerSteps
  · refine .inl (move_ownerSteps_of_ne c hm ?_)
    rintro now infoHash peerId rfl
    exact hhandshake ⟨now, infoHash, peerId, rfl⟩

/-- A move other than a handshake is made of steps. -/
theorem move_steps_of_ne (c : Connection X Y) {m : Move X Y}
    (hm : ∀ now infoHash peerId, m ≠ .call now (.handshake infoHash peerId)) :
    Steps c (c.move m) := by
  by_cases hround : ∃ now, m = .call now .process
  · obtain ⟨now, rfl⟩ := hround
    exact (process_pollSteps c now).steps
  · exact (move_ownerSteps_of_ne c (not_exists.mp hround) hm).steps

/-- Every move is made of steps, unless it is an accepted handshake: then the
connection was up and greets first. -/
theorem move_steps (c : Connection X Y) (m : Move X Y) :
    Steps c (c.move m) ∨
      ∃ infoHash peerId, c.isDown = false ∧ c.state.handshakeSent = false ∧
        Steps (c.greet infoHash peerId) (c.move m) := by
  by_cases hm : ∃ now, m = .call now .process
  · obtain ⟨now, rfl⟩ := hm
    exact .inl (process_pollSteps c now).steps
  · rcases move_ownerSteps c (not_exists.mp hm) with
      hsteps | ⟨infoHash, peerId, hup, hsent, hsteps⟩
    · exact .inl hsteps.steps
    · exact .inr ⟨infoHash, peerId, hup, hsent, hsteps.steps⟩

end Connection
end PeerLink
