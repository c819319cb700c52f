import PeerLink.Proofs.Connection.Close
import PeerLink.Proofs.Connection.Finality
import PeerLink.Proofs.Connection.Greeting
import PeerLink.Proofs.Connection.Intake

/-!
# The two handshakes

Either side may speak first, and whichever handshake is the later one is compared with
the other.  As long as a connection is up the two name the same info hash; what is known
of the peer is what its 68 bytes say; the owner is told about them once, and about no
frame before them.  Two handshakes that name different info hashes take the connection
down.
-/

namespace PeerLink

/-- The event tells that the peer's handshake was accepted. -/
def Event.isHandshake : Event → Bool
  | .handshakeComplete .. => true
  | _ => false

theorem Event.IsInbound.isHandshake_eq {event : Event} (h : event.IsInbound) :
    event.isHandshake = false := by
  cases event with
  | handshakeComplete => exact h.elim
  | _ => rfl

/-- No event tells about a handshake of the peer. -/
abbrev Output.IsUnmet (output : Output) : Prop := output.Raises (·.isHandshake = false)

/-- The events that can be raised without the peer: nothing was read, the connection was
torn down, or a custom module has something to tell when our handshake is queued. -/
inductive Event.IsOwn (X : Type) [Capability X] : Event → Prop where
  | noData : IsOwn X .noData
  | droppedConnection : IsOwn X .droppedConnection
  | greeting {m : X} {state : ConnectionState} {handshake : Handshake} {event : Event}
      (h : event ∈ (Capability.onHandshake m state handshake).output.events) : IsOwn X event

theorem Event.IsOwn.isHandshake_eq {X : Type} [Capability X]
    (hX : Capability.Queues Output.IsUnmet X) {event : Event} (h : event.IsOwn X) :
    event.isHandshake = false := by
  cases h with
  | noData => rfl
  | droppedConnection => rfl
  | greeting h => exact hX.onHandshake _ _ _ event h

theorem AnyModule.onHandshake_raises {X Y : Type} [Capability X] [SubProtocol Y]
    (m : AnyModule X Y) (state : ConnectionState) (handshake : Handshake) :
    (Capability.onHandshake m state handshake).output.Raises (·.IsOwn X) := by
  cases m with
  | fast fast => exact List.forall_mem_nil _
  | registry registry => exact List.forall_mem_nil _
  | custom m => exact fun event hevent => .greeting hevent

namespace Standing

/-- No connection is established without our handshake. -/
def IsMutual (standing : Standing) : Prop :=
  standing.phase = .established → standing.handshakeSent = true

theorem IsMutual.advancePhase {standing : Standing} (h : standing.IsMutual) :
    standing.advancePhase.IsMutual := by
  intro hphase
  rw [handshakeSent_advancePhase]
  rw [Standing.advancePhase] at hphase
  split at hphase
  · exact h hphase
  · split at hphase
    · next hsent => exact hsent
    · exact h hphase

end Standing

namespace Connection

variable {X Y : Type} [Capability X] {c d e : Connection X Y}

/-! ## What is told -/

/-- What was told so far goes with what is known of the peer: until its handshake is
known there is nothing but our own to tell, and the handshake is told once and in front
of all that the peer says. -/
inductive Recounts (c : Connection X Y) (told : List Event) : Prop where
  | alone (hpeer : c.acquaintance = .none) (htold : ∀ event ∈ told, event.IsOwn X)
  | met (peer : Handshake) (earlier later : List Event) (hpeer : c.acquaintance = .of peer)
      (htold : told = earlier ++ .handshakeComplete peer.peerId peer.reserved :: later)
      (hearlier : ∀ event ∈ earlier, event.IsOwn X)
      (hlater : ∀ event ∈ later, event.isHandshake = false)

/-- From `c` to `d` some events are raised, and the account of `c` becomes that of `d`. -/
def Retells (c : Connection X Y) (queue : List Event) (d : Connection X Y) : Prop :=
  ∃ raised, queue = c.outbox.events ++ raised ∧
    ∀ told, c.Recounts told → d.Recounts (told ++ raised)

variable {queue raised : List Event}

theorem Recounts.append {told : List Event} {peer : Handshake} (h : c.Recounts told)
    (hmet : c.acquaintance = .of peer) (hraised : ∀ event ∈ raised, event.isHandshake = false)
    (hpeer : d.acquaintance = c.acquaintance) : d.Recounts (told ++ raised) := by
  cases h with
  | alone halone _ =>
    rw [hmet] at halone
    cases halone
  | met same earlier later hsame htold hearlier hlater =>
    refine .met same earlier (later ++ raised) (hpeer.trans hsame) ?_ hearlier ?_
    · rw [htold, List.append_assoc]
      rfl
    · exact List.forall_mem_append.mpr ⟨hlater, hraised⟩

theorem Recounts.filter_isHandshake {told : List Event} {peer : Handshake}
    (hX : Capability.Queues Output.IsUnmet X) (h : c.Recounts told)
    (hmet : c.acquaintance = .of peer) :
    told.filter Event.isHandshake = [.handshakeComplete peer.peerId peer.reserved] := by
  cases h with
  | alone halone _ =>
    rw [hmet] at halone
    cases halone
  | met same earlier later hsame htold hearlier hlater =>
    obtain rfl := Acquaintance.of_inj (hmet.symm.trans hsame)
    have hfront : earlier.filter Event.isHandshake = [] := by
      rw [List.filter_eq_nil_iff]
      intro event hevent
      rw [(hearlier event hevent).isHandshake_eq hX]
      decide
    have hback : later.filter Event.isHandshake = [] := by
      rw [List.filter_eq_nil_iff]
      intro event hevent
      rw [hlater event hevent]
      decide
    rw [htold, List.filter_append, List.filter_cons_of_pos rfl, hfront, hback]
    rfl

theorem Recounts.takeWhile_isOwn {told : List Event}
    (hX : Capability.Queues Output.IsUnmet X) (h : c.Recounts told) :
    ∀ event ∈ told.takeWhile (!·.isHandshake), event.IsOwn X := by
  intro event hevent
  cases h with
  | alone _ htold => exact htold event (List.takeWhile_subset _ hevent)
  | met peer earlier later _ htold hearlier _ =>
    rw [htold, List.takeWhile_append_of_pos] at hevent
    · rw [List.takeWhile_cons_of_neg (by simp [Event.isHandshake]), List.append_nil] at hevent
      exact hearlier event hevent
    · intro event hevent
      rw [(hearlier event hevent).isHandshake_eq hX]
      rfl

namespace Retells

theorem silent (hqueue : queue = c.outbox.events) (hpeer : d.acquaintance = c.acquaintance) :
    Retells c queue d := by
  refine ⟨[], hqueue.trans (List.append_nil _).symm, ?_⟩
  intro told h
  rw [List.append_nil]
  cases h with
  | alone hsame htold => exact .alone (hpeer.trans hsame) htold
  | met peer earlier later hsame htold hearlier hlater =>
    exact .met peer earlier later (hpeer.trans hsame) htold hearlier hlater

/-- Behind the peer's handshake, anything but another one can be told. -/
theorem inbound (hqueue : queue = c.outbox.events ++ raised)
    (hreceived : c.state.handshakeReceived = true)
    (hraised : ∀ event ∈ raised, event.isHandshake = false)
    (hpeer : d.acquaintance = c.acquaintance) : Retells c queue d := by
  refine ⟨raised, hqueue, ?_⟩
  intro told h
  cases h with
  | alone halone _ =>
    have hunreceived : c.state.handshakeReceived = false := congrArg Acquaintance.received halone
    rw [hreceived] at hunreceived
    cases hunreceived
  | met peer earlier later hmet htold hearlier hlater =>
    exact (Recounts.met peer earlier later hmet htold hearlier hlater).append hmet hraised hpeer

/-- What is our own can be told at any time. -/
theorem own (hX : Capability.Queues Output.IsUnmet X) (hqueue : queue = c.outbox.events ++ raised)
    (hraised : ∀ event ∈ raised, event.IsOwn X) (hpeer : d.acquaintance = c.acquaintance) :
    Retells c queue d := by
  refine ⟨raised, hqueue, ?_⟩
  intro told h
  cases h with
  | alone halone htold =>
    exact .alone (hpeer.trans halone) (List.forall_mem_append.mpr ⟨htold, hraised⟩)
  | met peer earlier later hmet htold hearlier hlater =>
    exact (Recounts.met peer earlier later hmet htold hearlier hlater).append hmet
      (fun event hevent => (hraised event hevent).isHandshake_eq hX) hpeer

theorem trans (h : Retells c d.outbox.events d) (h' : Retells d queue e) : Retells c queue e := by
  obtain ⟨raised, hevents, htold⟩ := h
  obtain ⟨later, hqueue, hlater⟩ := h'
  refine ⟨raised ++ later, by rw [hqueue, hevents, List.append_assoc], ?_⟩
  intro told hc
  rw [← List.append_assoc]
  exact hlater _ (htold told hc)

end Retells

theorem acceptHandshake_retells (hreceived : c.state.handshakeReceived = false)
    (handshake : Handshake) :
    Retells c (c.acceptHandshake handshake).1.outbox.events (c.acceptHandshake handshake).1 := by
  cases haccept : c.acceptHandshake handshake with
  | mk d failure? =>
    cases failure? with
    | some failure =>
      have hsame : d = c := by
        rw [acceptHandshake] at haccept
        split at haccept
        · exact (Prod.mk.inj haccept).1.symm
        · cases haccept
      rw [hsame]
      exact .silent rfl rfl
    | none =>
      have hpeer := (acquaintance_acceptHandshake haccept).1
      refine ⟨[.handshakeComplete handshake.peerId handshake.reserved], ?_, ?_⟩
      · rw [acceptHandshake] at haccept
        split at haccept
        · cases haccept
        · rw [← (Prod.mk.inj haccept).1]
          rfl
      · intro told h
        cases h with
        | alone _ htold => exact .met handshake told [] hpeer rfl htold (List.forall_mem_nil _)
        | met peer _ _ hmet =>
          have hmet : c.state.handshakeReceived = true := congrArg Acquaintance.received hmet
          rw [hreceived] at hmet
          cases hmet

variable [SubProtocol Y]

theorem acquaintance_dispatch (c : Connection X Y) (frame : Frame) :
    (c.dispatch frame).1.acquaintance = c.acquaintance := by
  refine acquaintance_eq_of_standing (standing_dispatch c frame) ?_
  rw [dispatch_eq_absorb]
  rfl

section Quiet

variable (hX : Capability.Queues Output.IsUnmet X) (hY : SubProtocol.Queues Output.IsUnmet Y)
include hX

theorem teardown_retells (c : Connection X Y) : Retells c c.teardown.outbox.events c.teardown := by
  have hpeer := acquaintance_teardown c
  by_cases hdown : c.isDown = true
  · rw [teardown, if_pos hdown]
    exact .silent rfl rfl
  · refine .own hX ?_ (List.forall_mem_singleton.mpr .droppedConnection) hpeer
    rw [teardown, if_neg hdown]

include hY in
theorem dispatch_retells (hreceived : c.state.handshakeReceived = true) (frame : Frame) :
    Retells c (c.dispatch frame).1.outbox.events (c.dispatch frame).1 := by
  have hread : ∀ event : Event, event.IsInbound → Output.IsUnmet (.ofEvent event) :=
    fun event hevent => List.forall_mem_singleton.mpr hevent.isHandshake_eq
  have hA := Output.admits_raises fun _ h => h.isInbound.isHandshake_eq
  have hraised := Session.output_hear hA hX hY hread c.session frame
  refine .inbound ?_ hreceived hraised (acquaintance_dispatch c frame)
  rw [dispatch_eq_absorb]
  rfl

include hY in
theorem PollStep.retells (h : PollStep c d) : Retells c d.outbox.events d := by
  cases h with
  | keepAlive now hup =>
    refine .silent ?_ ?_
    all_goals
      rw [Connection.keepAlive]
      split <;> rfl
  | receive hup => exact .silent rfl rfl
  | rebuffer buffer hup => exact .silent rfl rfl
  | acceptHandshake handshake hup hreceived => exact acceptHandshake_retells hreceived handshake
  | dispatch frame hup hreceived => exact dispatch_retells hX hY hreceived frame
  | flush hup => exact .silent rfl rfl
  | noteIdle received hup =>
    rw [Connection.noteIdle]
    split
    · exact .own hX rfl (List.forall_mem_singleton.mpr .noData) rfl
    · exact .silent rfl rfl
  | teardown hup => exact teardown_retells hX c

include hY in
theorem PollSteps.retells (h : PollSteps c d) : Retells c d.outbox.events d := by
  induction h with
  | refl => exact .silent rfl rfl
  | tail _ hstep ih => exact ih.trans (hstep.retells hX hY)

theorem introduced_retells (c : Connection X Y) (infoHash : Digest) (peerId : PeerId) :
    Retells c (c.introduced infoHash peerId).outbox.events (c.introduced infoHash peerId) := by
  have hraised : ((c.greet infoHash peerId).introduce
      ⟨Capability.reserved c.modules, infoHash, peerId⟩).output.Raises (·.IsOwn X) :=
    Reply.output_each (Output.admitsMessages_raises _)
      (fun m => AnyModule.onHandshake_raises m _ _) c.modules
  exact .own hX rfl hraised (acquaintance_greet c infoHash peerId)

theorem HandshakeOutcome.retells (h : HandshakeOutcome c d) : Retells c d.outbox.events d := by
  cases h with
  | refused => exact .silent rfl rfl
  | mismatch hup => exact teardown_retells hX c
  | introduced infoHash peerId hup hsent => exact introduced_retells hX c infoHash peerId
  | failed infoHash peerId hup hsent =>
    exact (introduced_retells hX c infoHash peerId).trans (teardown_retells hX _)

include hY in
theorem move_retells (c : Connection X Y) (m : Move X Y) :
    Retells c (c.takenBy m ++ (c.move m).outbox.events) (c.move m) := by
  cases m using Move.sendsCases with
  | stir stimulus => exact .silent rfl rfl
  | connect now =>
    exact .silent (connect_worksUnheard c).events (connect_ownerSteps c).acquaintance_eq
  | handshake now infoHash peerId => exact (handshake_outcome c infoHash peerId).retells hX
  | process now => exact (process_pollSteps c now).retells hX hY
  | disconnect now => exact teardown_retells hX c
  | addModule now m =>
    change Retells c (c.addModule m).1.outbox.events (c.addModule m).1
    rw [addModule]
    split
    · exact .silent rfl rfl
    · exact .silent rfl rfl
  | setPieceCount now count => exact .silent rfl rfl
  | nextEvent now => exact .silent (queue_of_nextEvent c now) rfl
  | drainEvents now => exact .silent (List.append_nil _) rfl
  | sends now call h =>
    exact .silent (queue_of_sends c now call h)
      (perform_sendSteps c now call h).ownerSteps.acquaintance_eq

include hY in
/-- In every run, what was told goes with what is known of the peer. -/
theorem play_recounts (transport : Transport) (config : Config) (now : Nat)
    (moves : List (Move X Y)) :
    let start : Connection X Y := new transport config now
    (start.play moves).Recounts (start.history moves) := by
  intro start
  induction moves using List.reverseRecOn with
  | nil => exact .alone rfl (List.forall_mem_nil _)
  | append_singleton moves m ih =>
    obtain ⟨raised, hraised, htold⟩ := move_retells hX hY (start.play moves) m
    rw [play_concat, history_concat start moves m hraised]
    exact htold _ ih

end Quiet

/-! ## The info hashes -/

omit [Capability X] [SubProtocol Y] in
theorem StandingEffect.isMutual (h : StandingEffect c d) (hc : c.state.standing.IsMutual) :
    d.state.standing.IsMutual := by
  cases h with
  | same h => exact h ▸ hc
  | opened hup h =>
    rw [h]
    intro hphase
    cases hphase
  | accepted handshake hup hreceived h =>
    rw [h, Standing.accept]
    exact Standing.IsMutual.advancePhase hc
  | closed hup h =>
    rw [h]
    intro hphase
    cases hphase

theorem Steps.isMutual (h : Steps c d) (hc : c.state.standing.IsMutual) :
    d.state.standing.IsMutual := by
  induction h with
  | refl => exact hc
  | tail _ hstep ih => exact hstep.standingEffect.isMutual ih

/-- In no run is a connection established without our handshake. -/
theorem play_isMutual (hc : c.state.standing.IsMutual) (moves : List (Move X Y)) :
    (c.play moves).state.standing.IsMutual := by
  induction moves using List.reverseRecOn with
  | nil => exact hc
  | append_singleton moves m ih =>
    rw [play_concat]
    rcases move_steps (c.play moves) m with hsteps | ⟨infoHash, peerId, -, -, hsteps⟩
    · exact hsteps.isMutual ih
    · refine hsteps.isMutual ?_
      rw [standing_greet, Standing.greet]
      exact Standing.IsMutual.advancePhase fun _ => rfl

omit [Capability X] [SubProtocol Y] in
/-- Our info hash and that of the peer, as far as they are known, are the same. -/
def Agrees (c : Connection X Y) : Prop :=
  ∀ own remote, c.state.infoHash = some own → c.remoteInfoHash = some remote → own = remote

omit [Capability X] [SubProtocol Y] in
theorem Agrees.of_eq (h : c.Agrees) (hown : d.state.infoHash = c.state.infoHash)
    (hpeer : d.acquaintance = c.acquaintance) : d.Agrees := by
  have hremote : d.remoteInfoHash = c.remoteInfoHash := congrArg Acquaintance.infoHash hpeer
  rw [Agrees, hown, hremote]
  exact h

theorem PollStep.agrees (h : PollStep c d) (hc : c.Agrees) : d.Agrees := by
  have hown : d.state.infoHash = c.state.infoHash := Steps.infoHash_eq (.single (.inr h))
  cases h with
  | keepAlive now hup =>
    refine hc.of_eq hown ?_
    rw [Connection.keepAlive]
    split <;> rfl
  | receive hup => exact hc.of_eq hown rfl
  | rebuffer buffer hup => exact hc.of_eq hown rfl
  | acceptHandshake handshake hup hreceived =>
    intro own remote hinfoHash hremote
    rw [hown] at hinfoHash
    rw [Connection.acceptHandshake] at hremote
    split at hremote
    · exact hc own remote hinfoHash hremote
    · next hsame =>
      obtain rfl := Option.some.inj hremote
      simpa [hinfoHash] using hsame
  | dispatch frame hup hreceived => exact hc.of_eq hown (acquaintance_dispatch c frame)
  | flush hup => exact hc.of_eq hown rfl
  | noteIdle received hup =>
    refine hc.of_eq hown ?_
    rw [Connection.noteIdle]
    split <;> rfl
  | teardown hup => exact hc.of_eq hown (acquaintance_teardown c)

theorem PollSteps.agrees (h : PollSteps c d) (hc : c.Agrees) : d.Agrees := by
  induction h with
  | refl => exact hc
  | tail _ hstep ih => exact hstep.agrees ih

theorem greet_infoHash (c : Connection X Y) (infoHash : Digest) (peerId : PeerId) :
    (c.greet infoHash peerId).state.infoHash = some infoHash := by
  have hstanding := standing_greet c infoHash peerId
  rw [Standing.greet, Standing.advancePhase_eq] at hstanding
  exact congrArg Standing.infoHash hstanding

/-- A handshake that is ours to make is compared with that of the peer, if it is there. -/
theorem handshake_of_arguments {infoHash : String} {bytes : Bytes} {digest : Digest}
    {peerId : PeerId} (h : c.handshakeArguments infoHash bytes = .ok (digest, peerId)) :
    (c.handshake infoHash bytes).1 = c.teardown ∨
      (∀ remote, c.remoteInfoHash = some remote → digest = remote) ∧
        OwnerSteps (c.greet digest peerId) (c.handshake infoHash bytes).1 := by
  have hup := (handshakeArguments_eq_ok h).1
  have hintroduce := introduce_ownerStep hup digest peerId
  rw [handshake, h]
  dsimp only
  split
  · exact .inl rfl
  · next hsame =>
    refine .inr ⟨?_, ?_⟩
    · intro remote hremote
      have hremote : remote = digest := by simpa [hremote] using hsame
      exact hremote.symm
    · rcases queueHandshake_cases c digest peerId with ⟨-, hqueued⟩ | ⟨failure, -, hqueued⟩
      · rw [hqueued]
        exact .single hintroduce
      · rw [hqueued]
        exact .head hintroduce (teardown_ownerSteps _)

theorem handshake_agrees (hc : c.Agrees) (infoHash : String) (bytes : Bytes) :
    (c.handshake infoHash bytes).1.Agrees := by
  cases harguments : c.handshakeArguments infoHash bytes with
  | error failure =>
    rw [handshake, harguments]
    exact hc
  | ok arguments =>
    rcases handshake_of_arguments harguments with hdown | ⟨hsame, hsteps⟩
    · rw [hdown]
      exact hc.of_eq (teardown_ownerSteps c).steps.infoHash_eq (acquaintance_teardown c)
    · intro own remote hown hremote
      rw [hsteps.steps.infoHash_eq, greet_infoHash] at hown
      have hpeer := hsteps.acquaintance_eq.trans (acquaintance_greet c arguments.1 arguments.2)
      have hknown : c.remoteInfoHash = some remote :=
        (congrArg Acquaintance.infoHash hpeer).symm.trans hremote
      obtain rfl := Option.some.inj hown
      exact hsame remote hknown

theorem move_agrees (hc : c.Agrees) (m : Move X Y) : (c.move m).Agrees := by
  by_cases hround : ∃ now, m = .call now .process
  · obtain ⟨now, rfl⟩ := hround
    exact (process_pollSteps c now).agrees hc
  · by_cases hm : ∃ now infoHash bytes, m = .call now (.handshake infoHash bytes)
    · obtain ⟨now, infoHash, bytes, rfl⟩ := hm
      exact handshake_agrees hc infoHash bytes
    · have hsteps := move_ownerSteps_of_ne c (not_exists.mp hround)
        (fun now infoHash bytes h => hm ⟨now, infoHash, bytes, h⟩)
      exact hc.of_eq hsteps.steps.infoHash_eq hsteps.acquaintance_eq

theorem play_agrees (hc : c.Agrees) (moves : List (Move X Y)) : (c.play moves).Agrees := by
  induction moves using List.reverseRecOn with
  | nil => exact hc
  | append_singleton moves m ih =>
    rw [play_concat]
    exact move_agrees ih m

/-! ## Our handshake -/

/-- The info hash of the handshake that the move makes, if it is ours to make. -/
def greetingIn (c : Connection X Y) : Move X Y → List Digest
  | .call _ (.handshake infoHash peerId) =>
    match c.handshakeArguments infoHash peerId with
    | .ok (digest, _) => [digest]
    | .error _ => []
  | _ => []

/-- The info hashes of the handshakes that a run makes. -/
def greetings (c : Connection X Y) (moves : List (Move X Y)) : List Digest :=
  along greetingIn c moves

omit [Capability X] [SubProtocol Y] in
/-- The record knows of the handshakes that were made: none, or one. -/
inductive Greeted (c : Connection X Y) : List Digest → Prop where
  | unsent (hsent : c.state.handshakeSent = false) : Greeted c []
  | sent (own : Digest) (hsent : c.state.handshakeSent = true)
      (hown : c.state.infoHash = some own) : Greeted c [own]

theorem isDown_of_move {m : Move X Y} (h : (c.move m).isDown = false) : c.isDown = false := by
  by_contra hdown
  have hlater := play_isDown (c := c) (by simpa using hdown) [m]
  change (c.move m).isDown = true at hlater
  rw [h] at hlater
  cases hlater

theorem Greeted.move {greetings : List Digest} (h : c.Greeted greetings) (m : Move X Y)
    (hup : (c.move m).isDown = false) : (c.move m).Greeted (greetings ++ c.greetingIn m) := by
  by_cases hm : ∃ now infoHash bytes, m = .call now (.handshake infoHash bytes)
  · obtain ⟨now, infoHash, bytes, rfl⟩ := hm
    change (c.handshake infoHash bytes).1.isDown = false at hup
    change (c.handshake infoHash bytes).1.Greeted _
    cases harguments : c.handshakeArguments infoHash bytes with
    | error failure =>
      have hnone : c.greetingIn (.call now (.handshake infoHash bytes)) = [] := by
        rw [greetingIn, harguments]
      rw [hnone, List.append_nil, handshake, harguments]
      exact h
    | ok arguments =>
      have hone : c.greetingIn (.call now (.handshake infoHash bytes)) = [arguments.1] := by
        rw [greetingIn, harguments]
      have hunsent := (handshakeArguments_eq_ok harguments).2
      rcases handshake_of_arguments harguments with hdown | ⟨-, hsteps⟩
      · rw [hdown, isDown_teardown] at hup
        cases hup
      · cases h with
        | sent own hsent _ =>
          rw [hunsent] at hsent
          cases hsent
        | unsent _ =>
          rw [hone]
          refine .sent arguments.1 ?_ ?_
          · exact hsteps.steps.keeps_greeting.1.trans
              (greet_ownHandshake c arguments.1 arguments.2).1
          · exact hsteps.steps.infoHash_eq.trans (greet_infoHash c arguments.1 arguments.2)
  · have hsteps := move_steps_of_ne c (fun now infoHash bytes h => hm ⟨now, infoHash, bytes, h⟩)
    have hnone : c.greetingIn m = [] := by
      cases m with
      | stir stimulus => rfl
      | call now call =>
        cases call with
        | handshake infoHash bytes => exact absurd ⟨now, infoHash, bytes, rfl⟩ hm
        | _ => rfl
    rw [hnone, List.append_nil]
    cases h with
    | unsent hsent => exact .unsent (hsteps.keeps_greeting.1.trans hsent)
    | sent own hsent hown =>
      exact .sent own (hsteps.keeps_greeting.1.trans hsent) (hsteps.infoHash_eq.trans hown)

theorem play_greeted (transport : Transport) (config : Config) (now : Nat)
    (moves : List (Move X Y)) :
    let start : Connection X Y := new transport config now
    (start.play moves).isDown = false → (start.play moves).Greeted (start.greetings moves) := by
  intro start
  induction moves using List.reverseRecOn with
  | nil => exact fun _ => .unsent rfl
  | append_singleton moves m ih =>
    rw [play_concat, greetings, along_concat]
    exact fun hup => (ih (isDown_of_move hup)).move m hup

theorem greetings_of_sent (h : c.state.handshakeSent = true) (moves : List (Move X Y)) :
    c.greetings moves = [] := by
  induction moves generalizing c with
  | nil => rfl
  | cons m rest ih =>
    have hnone : c.greetingIn m = [] := by
      unfold greetingIn
      split
      · split
        · next harguments =>
          have hunsent := (handshakeArguments_eq_ok harguments).2
          rw [h] at hunsent
          cases hunsent
        · rfl
      · rfl
    change c.greetingIn m ++ (c.move m).greetings rest = []
    rw [hnone, ih (handshakeSent_move h m)]
    rfl

/-! ## Both handshakes -/

/-- A handshake of ours with this info hash was made, and this one of the peer was read. -/
def Exchanged (start : Connection X Y) (own : Digest) (peer : Handshake)
    (moves : List (Move X Y)) : Prop :=
  own ∈ start.greetings moves ∧ peer.encode <+: start.bytesRead moves

section Runs

variable (transport : Transport) (config : Config) (now : Nat) (moves : List (Move X Y))

theorem exists_of_received :
    let start : Connection X Y := new transport config now
    (start.play moves).isDown = false → (start.play moves).state.handshakeReceived = true →
      ∃ peer : Handshake, (start.play moves).acquaintance = .of peer ∧
        peer.encode <+: start.bytesRead moves := by
  intro start hup hreceived
  have hintake := play_intake transport config now moves hup
  generalize hframes : framesOf _ moves = frames at hintake
  cases hintake with
  | awaits hpeer _ =>
    have hunreceived : (start.play moves).state.handshakeReceived = false :=
      congrArg Acquaintance.received hpeer
    rw [hreceived] at hunreceived
    cases hunreceived
  | met peer hpeer hbytes _ =>
    refine ⟨peer, hpeer, ?_⟩
    rw [hbytes]
    exact List.prefix_append peer.encode _

/-- Of a connection that is up, the peer's handshake is taken as soon as it is read. -/
theorem acquaintance_of_bytesRead {peer : Handshake} :
    let start : Connection X Y := new transport config now
    (start.play moves).isDown = false → peer.encode <+: start.bytesRead moves →
      (start.play moves).acquaintance = .of peer := by
  intro start hup hread
  obtain ⟨rest, hread⟩ := hread
  have hintake := play_intake transport config now moves hup
  generalize hframes : framesOf _ moves = frames at hintake
  cases hintake with
  | awaits hpeer hbytes =>
    have hreceived : (start.play moves).state.handshakeReceived = false :=
      congrArg Acquaintance.received hpeer
    have hwaits : (start.play moves).buffer.takeHandshake = .ok none :=
      (Listener.nextItem_eq_none_iff_takeHandshake hreceived).mp
        (IsReachable.isWaiting ⟨transport, config, now, moves, rfl⟩ hup)
    have htaken : (start.play moves).buffer.takeHandshake =
        .ok (some (peer, ⟨rest, (start.play moves).buffer.limit⟩)) :=
      Reassembly.takeHandshake_eq_some_iff.mpr ⟨hbytes.symm.trans hread.symm, rfl⟩
    rw [hwaits] at htaken
    cases htaken
  | met other hpeer hbytes _ =>
    rw [hpeer, (Handshake.eq_of_encode_append (hread.trans hbytes)).1]

/-- Of a connection that is up, both handshakes name the same info hash. -/
theorem greetings_eq_of_met {peer : Handshake} :
    let start : Connection X Y := new transport config now
    (start.play moves).isDown = false → (start.play moves).state.handshakeSent = true →
      (start.play moves).acquaintance = .of peer →
      start.greetings moves = [peer.infoHash] ∧
        (start.play moves).state.infoHash = some peer.infoHash := by
  intro start hup hsent hpeer
  have hagrees : (start.play moves).Agrees := by
    refine play_agrees ?_ moves
    intro own remote hown
    cases hown
  have hgreeted := play_greeted transport config now moves hup
  generalize greetings _ moves = list at hgreeted ⊢
  cases hgreeted with
  | unsent hunsent =>
    have hunsent : (start.play moves).state.handshakeSent = false := hunsent
    rw [hsent] at hunsent
    cases hunsent
  | sent own _ hown =>
    obtain rfl := hagrees own peer.infoHash hown (congrArg Acquaintance.infoHash hpeer)
    exact ⟨rfl, hown⟩

/-- Handshakes that were exchanged by a connection that is up name the same info hash. -/
theorem Exchanged.infoHash_eq {own : Digest} {peer : Handshake} :
    let start : Connection X Y := new transport config now
    (start.play moves).isDown = false → start.Exchanged own peer moves →
      own = peer.infoHash := by
  intro start hup hexchanged
  have hpeer := acquaintance_of_bytesRead transport config now moves hup hexchanged.2
  have hgreeted := play_greeted transport config now moves hup
  have hsent : (start.play moves).state.handshakeSent = true := by
    have hown := hexchanged.1
    generalize greetings _ moves = list at hgreeted hown
    cases hgreeted with
    | unsent _ => cases hown
    | sent _ hsent _ => exact hsent
  obtain ⟨hgreetings, -⟩ := greetings_eq_of_met transport config now moves hup hsent hpeer
  have hown := hexchanged.1
  rw [hgreetings] at hown
  exact List.mem_singleton.mp hown

/-- Handshakes that are exchanged at any time of a run name the same info hash if the
connection was ever established. -/
theorem Exchanged.infoHash_eq_of_established {own : Digest} {peer : Handshake}
    (later : List (Move X Y)) :
    let start : Connection X Y := new transport config now
    (start.play moves).state.phase = .established →
      start.Exchanged own peer (moves ++ later) → own = peer.infoHash := by
  intro start hphase hexchanged
  have hup : (start.play moves).isDown = false := by
    rw [isDown, hphase]
    rfl
  have hreceived : (start.play moves).state.handshakeReceived = true :=
    IsReachable.isSound ⟨transport, config, now, moves, rfl⟩ hphase
  have hsent : (start.play moves).state.handshakeSent = true := by
    refine play_isMutual (c := start) ?_ moves hphase
    intro hopened
    change (if transport.connected then Phase.connected else .connecting) = _ at hopened
    split at hopened <;> cases hopened
  obtain ⟨met, hpeer, hread⟩ := exists_of_received transport config now moves hup hreceived
  obtain ⟨hgreetings, -⟩ := greetings_eq_of_met transport config now moves hup hsent hpeer
  have hsame : peer = met := by
    obtain ⟨rest, hrest⟩ := hexchanged.2
    obtain ⟨rest', hrest'⟩ : met.encode <+: start.bytesRead (moves ++ later) := by
      rw [bytesRead, along_append]
      exact hread.trans (List.prefix_append _ _)
    exact (Handshake.eq_of_encode_append (hrest.trans hrest'.symm)).1
  have hown := hexchanged.1
  have hnone : (start.play moves).greetings later = [] := greetings_of_sent hsent later
  rw [greetings, along_append] at hown
  change own ∈ start.greetings moves ++ (start.play moves).greetings later at hown
  rw [hgreetings, hnone, List.append_nil, ← hsame] at hown
  exact List.mem_singleton.mp hown

omit [Capability X] [SubProtocol Y] in
/-- A property that a run comes to have is brought about by one of its moves. -/
theorem exists_move_of_play {P : List (Move X Y) → Prop} (hnil : ¬ P []) (h : P moves) :
    ∃ before m after, moves = before ++ m :: after ∧ ¬ P before ∧ P (before ++ [m]) := by
  induction moves using List.reverseRecOn with
  | nil => exact absurd h hnil
  | append_singleton moves m ih =>
    by_cases hearlier : P moves
    · obtain ⟨before, first, after, rfl, hbefore, hfirst⟩ := ih hearlier
      exact ⟨before, first, after ++ [m], by simp, hbefore, hfirst⟩
    · exact ⟨moves, m, [], rfl, hearlier, h⟩

/-- A move that completes the exchange is made while the connection is up. -/
theorem Exchanged.isDown_eq {start : Connection X Y} {before : List (Move X Y)} {m : Move X Y}
    {own : Digest} {peer : Handshake} (hbefore : ¬ start.Exchanged own peer before)
    (h : start.Exchanged own peer (before ++ [m])) : (start.play before).isDown = false := by
  by_contra hdown
  have hdown : (start.play before).isDown = true := by simpa using hdown
  have hgreetings : (start.play before).greetingIn m = [] := by
    unfold greetingIn
    split
    · split
      · next harguments =>
        have hup := (handshakeArguments_eq_ok harguments).1
        rw [hdown] at hup
        cases hup
      · rfl
    · rfl
  have hbytes : (start.play before).bytesIn m = [] := by
    unfold bytesIn
    split
    · exact if_neg fun hboth => by simp [hdown] at hboth
    · rfl
  rw [Exchanged, greetings, bytesRead, along_concat, along_concat, hgreetings, hbytes,
    List.append_nil, List.append_nil] at h
  exact hbefore h

/-- In every run in which custom modules do not tell about handshakes, the handshakes of
a connection that is up name the same info hash, whichever came first.  What is known of
the peer is then what the bytes of its handshake say, and the owner was told so once.
In front of that it was told about nothing that the peer sent.  If the info hashes
differ, the move that brings the later handshake takes the connection down, and it is
never established. -/
theorem handshakes_agree (hX : Capability.Queues Output.IsUnmet X)
    (hY : SubProtocol.Queues Output.IsUnmet Y) :
    let start : Connection X Y := new transport config now
    let final := start.play moves
    (final.isDown = false → final.state.handshakeSent = true →
      final.state.handshakeReceived = true →
      ∃ peer : Handshake, peer.encode <+: start.bytesRead moves ∧
        final.state.infoHash = some peer.infoHash ∧
        final.state.remotePeerId = some peer.peerId ∧
        final.state.remoteReserved = some peer.reserved ∧
        (start.history moves).filter Event.isHandshake =
          [.handshakeComplete peer.peerId peer.reserved]) ∧
      (∀ event ∈ (start.history moves).takeWhile (!·.isHandshake), event.IsOwn X) ∧
      ∀ own peer, start.Exchanged own peer moves → own ≠ peer.infoHash →
        (∀ before, before <+: moves → (start.play before).state.phase ≠ .established) ∧
          ∃ before m after, moves = before ++ m :: after ∧
            (start.play before).isDown = false ∧ ¬ start.Exchanged own peer before ∧
            start.Exchanged own peer (before ++ [m]) ∧
            (start.play (before ++ [m])).isDown = true := by
  intro start final
  have hrecounts := play_recounts hX hY transport config now moves
  refine ⟨?_, hrecounts.takeWhile_isOwn hX, ?_⟩
  · intro hup hsent hreceived
    obtain ⟨peer, hpeer, hread⟩ := exists_of_received transport config now moves hup hreceived
    obtain ⟨-, hown⟩ := greetings_eq_of_met transport config now moves hup hsent hpeer
    exact ⟨peer, hread, hown, congrArg Acquaintance.peerId hpeer,
      congrArg Acquaintance.reserved hpeer, hrecounts.filter_isHandshake hX hpeer⟩
  · intro own peer hexchanged hother
    constructor
    · rintro before ⟨later, rfl⟩ hphase
      exact hother (Exchanged.infoHash_eq_of_established transport config now before later hphase
        hexchanged)
    · have hnil : ¬ start.Exchanged own peer [] := fun h => List.not_mem_nil h.1
      obtain ⟨before, m, after, rfl, hbefore, hm⟩ := exists_move_of_play moves hnil hexchanged
      refine ⟨before, m, after, rfl, hm.isDown_eq hbefore, hbefore, hm, ?_⟩
      by_contra hup
      exact hother (Exchanged.infoHash_eq transport config now (before ++ [m])
        (by simpa using hup) hm)

end Runs

/-- A peer that speaks first, and a connection that answers with this info hash. -/
def answering (infoHash : String) : List (Move Empty Empty) :=
  [.stir (.feed [.data (Handshake.encode ⟨.none, Vector.replicate 20 0,
      ⟨Vector.replicate 20 8⟩⟩)]), .call 0 .process,
    .call 0 (.handshake infoHash (List.replicate 20 7)), .call 0 .process]

/-- One answer has the info hash of the peer, and the other has another one. -/
theorem handshakes_agree_of_answering :
    let peer : Handshake := ⟨.none, Vector.replicate 20 0, ⟨Vector.replicate 20 8⟩⟩
    let start : Connection Empty Empty := new (.new true) .standard 0
    let same := answering "0000000000000000000000000000000000000000"
    let other := answering "0000000000000000000000000000000000000001"
    (start.play same).state.phase = .established ∧
      (start.history same).filter Event.isHandshake =
        [.handshakeComplete peer.peerId peer.reserved] ∧
      ∃ before m after, other = before ++ m :: after ∧ (start.play before).isDown = false ∧
        (start.play (before ++ [m])).isDown = true := by
  intro peer start same other
  let own : Digest := (Vector.replicate 19 0).push 1
  have hphase : (start.play same).state.phase = .established := by decide +kernel
  have hbytes : start.bytesRead same = peer.encode ++ [] := by decide +kernel
  have hexchanged : start.Exchanged own peer other := ⟨by decide +kernel, by decide +kernel⟩
  have hother : own ≠ peer.infoHash := by decide +kernel
  have hagree := (handshakes_agree (.new true) .standard 0 same
    Capability.queues_empty SubProtocol.queues_empty).1
  have hdiffer := (handshakes_agree (.new true) .standard 0 other
    Capability.queues_empty SubProtocol.queues_empty).2.2
  obtain ⟨met, ⟨rest, hmet⟩, -, -, -, htold⟩ :=
    hagree (by decide +kernel) (by decide +kernel) (by decide +kernel)
  obtain ⟨hpeer, -⟩ := Handshake.eq_of_encode_append (hmet.trans hbytes)
  rw [hpeer] at htold
  obtain ⟨-, before, m, after, hmoves, hlive, -, -, hdown⟩ := hdiffer own peer hexchanged hother
  exact ⟨hphase, htold, before, m, after, hmoves, hlive, hdown⟩

end Connection
end PeerLink
