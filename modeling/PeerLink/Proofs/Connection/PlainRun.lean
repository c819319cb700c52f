import PeerLink.Proofs.Connection.Plain

/-!
# Runs of plain moves

The moves of a plain run are made at one time: rounds of work, plain messages to send, a
handshake with a given info hash, and what a reliable transport does.  Each such move
leaves the connection plain and queues the messages that it is to send, or it finds
something to refuse: `IsPlain.move`.  So what a plain run writes is the front of a plain
stream also if the connection goes down, `HasSpoken.append`, and as long as it is up, it
tells the messages that it hands on, `HasHeard.concat`.
-/

namespace PeerLink

/-- The messages that a move is to send. -/
def Move.said {X Y : Type} : Move X Y → List Message
  | .call _ (.send message) => [message]
  | .call _ (.sendBitfield pieces false) => [.bitfield pieces.toBytes]
  | _ => []

/-- All happens at one time.  The owner sends plain messages, makes a handshake with this
info hash, does rounds of work and takes events; the transport neither fails nor ends. -/
def Move.IsPlain {X Y : Type} (now : Nat) (digest : Digest) (limit : Nat) : Move X Y → Prop
  | .call time .process => time = now
  | .call time (.send message) => time = now ∧ message.IsPlain limit
  | .call time (.sendBitfield pieces disguised) =>
    time = now ∧ disguised = false ∧ (Message.bitfield pieces.toBytes).IsPlain limit
  | .call _ (.handshake infoHash _) => Digest.parse infoHash = .ok digest
  | .call _ (.setPieceCount _) | .call _ .nextEvent | .call _ .drainEvents => True
  | .stir (.feed answers) => ∀ answer ∈ answers, answer.IsGood
  | .stir (.planWrites answers) => ∀ answer ∈ answers, answer.IsGood
  | _ => False

instance {X Y : Type} (now : Nat) (digest : Digest) (limit : Nat) (m : Move X Y) :
    Decidable (m.IsPlain now digest limit) :=
  match m with
  | .call time .process => inferInstanceAs (Decidable (time = now))
  | .call time (.send _) => inferInstanceAs (Decidable (time = now ∧ _))
  | .call time (.sendBitfield ..) => inferInstanceAs (Decidable (time = now ∧ _ ∧ _))
  | .call _ (.handshake ..) => inferInstanceAs (Decidable (_ = _))
  | .stir (.feed answers) => inferInstanceAs (Decidable (∀ answer ∈ answers, answer.IsGood))
  | .stir (.planWrites answers) => inferInstanceAs (Decidable (∀ answer ∈ answers, answer.IsGood))
  | .call _ (.setPieceCount _) | .call _ .nextEvent | .call _ .drainEvents => .isTrue trivial
  | .stir (.failConnect _) | .stir (.setConnected _) | .call _ .connect | .call _ .disconnect
  | .call _ (.addModule _) | .call _ (.sendExtended ..) | .call _ (.sendFromRegistry ..)
  | .call _ (.sendPeerExchange _) | .call _ (.grantAllowedFast ..) => .isFalse id

theorem Move.IsPlain.said {X Y : Type} {now : Nat} {digest : Digest} {limit : Nat}
    {m : Move X Y} (h : m.IsPlain now digest limit) :
    ∀ message ∈ m.said, message.IsPlain limit := by
  cases m with
  | stir stimulus => exact List.forall_mem_nil _
  | call time call =>
    cases call with
    | send message => exact List.forall_mem_singleton.mpr h.2
    | sendBitfield pieces disguised =>
      obtain ⟨-, rfl, hplain⟩ := h
      exact List.forall_mem_singleton.mpr hplain
    | _ => exact List.forall_mem_nil _

namespace Connection

variable {X Y : Type} [Capability X] [SubProtocol Y] {c d : Connection X Y}
  {fast : Bool} {now : Nat} {digest : Digest} {limit : Nat}

omit [Capability X] [SubProtocol Y] in
/-- The connection is up over a reliable transport, with the fast extension or without any
module.  It accepts frames up to the limit and knows no other info hash, and it has
nothing to keep alive at the time `now`. -/
structure IsPlain (fast : Bool) (now : Nat) (digest : Digest) (limit : Nat)
    (c : Connection X Y) : Prop where
  up : c.isDown = false
  reliable : c.transport.IsReliable
  equips : Equips fast c.modules
  limit : c.buffer.limit = limit
  infoHash : ∀ own, c.state.infoHash = some own → own = digest
  awake : now ≤ c.lastKeepAlive

/-- The peer has another info hash, or something that is there to be read is refused. -/
def Refuses (c : Connection X Y) (digest : Digest) : Prop :=
  (∃ remote, c.remoteInfoHash = some remote ∧ remote ≠ digest) ∨
    ∃ read rest, read ++ rest = Transport.unread c.transport.reads ∧
      (c.listener.feed read).listen.result ≠ .ok ()

/-- A connection that awaits plain messages refuses nothing. -/
theorem IsPlain.not_refuses (h : c.IsPlain fast now digest limit) {later : Bytes}
    (hawaits : c.listener.Awaits digest (Transport.unread c.transport.reads ++ later))
    (hpeer : ∀ remote, c.remoteInfoHash = some remote → remote = digest) :
    ¬ c.Refuses digest := by
  rintro (⟨remote, hremote, hother⟩ | ⟨read, rest, hread, hrefused⟩)
  · exact hother (hpeer remote hremote)
  · rw [← hread, List.append_assoc] at hawaits
    exact hrefused (hawaits.feed.result h.equips h.infoHash)

/-! ## Rounds -/

/-- No step of a round moves the last keep-alive to an earlier time. -/
theorem PollSteps.lastKeepAlive_le (h : PollSteps c d) : c.lastKeepAlive ≤ d.lastKeepAlive := by
  induction h with
  | refl => exact Nat.le_refl _
  | @tail d e _ hstep ih =>
    refine Nat.le_trans ih ?_
    cases hstep with
    | keepAlive now hup =>
      rw [Connection.keepAlive]
      split
      · next hdue =>
        have hlate : d.config.keepAliveInterval < now - d.lastKeepAlive := by
          simpa using (Bool.and_eq_true_iff.mp hdue).2
        change d.lastKeepAlive ≤ now
        omega
      · exact Nat.le_refl _
    | receive hup => exact Nat.le_refl _
    | rebuffer buffer hup => exact Nat.le_refl _
    | acceptHandshake handshake hup hreceived =>
      rw [Connection.acceptHandshake]
      split <;> exact Nat.le_refl _
    | dispatch frame hup hreceived =>
      rw [dispatch_eq_absorb]
      exact Nat.le_refl _
    | flush hup => exact Nat.le_refl _
    | noteIdle received hup =>
      rw [Connection.noteIdle]
      split <;> exact Nat.le_refl _
    | teardown hup =>
      rw [Connection.teardown]
      split <;> exact Nat.le_refl _

/-- A round leaves the connection plain if nothing is refused. -/
theorem IsPlain.process (h : c.IsPlain fast now digest limit) (hframed : c.IsFramed) :
    (c.process now).1.IsPlain fast now digest limit ∨
      (c.process now).1.isDown = true ∧ c.Refuses digest := by
  have hsteps := process_pollSteps c now
  cases process_digests h.up hframed h.reliable now with
  | breaksOff read rest hread hdown hbreaks =>
    exact .inr ⟨hdown, .inr ⟨read, rest, hread, hbreaks.refused⟩⟩
  | goesOn read hread hup hreliable hgoes =>
    obtain ⟨hequips, -⟩ := h.equips.listen (c.listener.feed read)
    have hlimit := Listener.limit_listen (c.listener.feed read)
    rw [← hgoes.listener] at hequips hlimit
    refine .inl ⟨hup, hreliable, hequips, hlimit.trans h.limit, ?_,
      Nat.le_trans h.awake hsteps.lastKeepAlive_le⟩
    rw [hsteps.steps.infoHash_eq]
    exact h.infoHash

theorem IsPlain.queuedInRound_eq_nil (h : c.IsPlain fast now digest limit) :
    c.queuedInRound now = [] := by
  have hdue : c.keepAliveDue now = [] := by
    have hearly : ¬ c.config.keepAliveInterval < now - c.lastKeepAlive := by
      have hawake := h.awake
      omega
    rw [keepAliveDue, if_neg (by simp [hearly])]
  obtain ⟨-, hquiet⟩ := h.equips.listen (c.listener.feed c.arrival.data)
  rw [queuedInRound, if_pos ⟨h.up, h.reliable.connected⟩, hdue, hquiet]
  exact ite_self _

/-! ## Greetings -/

theorem IsPlain.introduce_eq (h : c.IsPlain fast now digest limit) (peerId : PeerId) :
    (c.greet digest peerId).introduce ⟨Capability.reserved c.modules, digest, peerId⟩ =
      .ok c.modules () .none :=
  h.equips.each _ _

theorem IsPlain.introduced (h : c.IsPlain fast now digest limit) (peerId : PeerId) :
    (c.introduced digest peerId).IsPlain fast now digest limit := by
  refine ⟨greet_isDown h.up digest peerId, h.reliable, ?_, h.limit, ?_, h.awake⟩
  · change Equips fast ((c.greet digest peerId).introduce _).next
    rw [h.introduce_eq]
    exact h.equips
  · intro own hown
    have hsame : (c.introduced digest peerId).state.infoHash = some digest :=
      greet_infoHash c digest peerId
    rw [hsame] at hown
    exact (Option.some.inj hown).symm

/-- A handshake is not made, it closes the connection for the info hash of the peer, or it
is queued. -/
theorem IsPlain.handshake_cases (h : c.IsPlain fast now digest limit) {infoHash : String}
    (hinfoHash : Digest.parse infoHash = .ok digest) (bytes : Bytes) :
    c.queuedInGreeting infoHash bytes = [] ∧
        ((c.handshake infoHash bytes).1 = c ∨
          (c.handshake infoHash bytes).1 = c.teardown ∧ c.Refuses digest) ∨
      ∃ peerId, c.state.handshakeSent = false ∧
        (c.handshake infoHash bytes).1 = c.introduced digest peerId ∧
        c.queuedInGreeting infoHash bytes =
          [Handshake.encode ⟨Capability.reserved c.modules, digest, peerId⟩] := by
  cases harguments : c.handshakeArguments infoHash bytes with
  | error failure =>
    rw [handshake, queuedInGreeting, harguments]
    exact .inl ⟨rfl, .inl rfl⟩
  | ok arguments =>
    obtain ⟨named, peerId⟩ := arguments
    obtain rfl : named = digest := by
      obtain ⟨parsed, hparsed, hrest⟩ := bind_eq_ok_iff.mp harguments
      obtain ⟨id, -, hrest⟩ := bind_eq_ok_iff.mp hrest
      rw [hinfoHash] at hparsed
      obtain rfl := Except.ok.inj hparsed
      split at hrest
      · cases hrest
      · split at hrest
        · cases hrest
        · exact (Prod.mk.inj (Except.ok.inj hrest)).1.symm
    have hintroduce := h.introduce_eq peerId
    rw [handshake, queuedInGreeting, harguments]
    dsimp only
    by_cases hother : c.remoteInfoHash.any (· != named) = true
    · rw [if_pos hother, if_pos hother]
      obtain ⟨remote, hremote, hne⟩ := (Option.any_eq_true _ _).mp hother
      exact .inl ⟨rfl, .inr ⟨rfl, .inl ⟨remote, hremote, bne_iff_ne.mp hne⟩⟩⟩
    · rw [if_neg hother, if_neg hother, hintroduce]
      refine .inr ⟨peerId, (handshakeArguments_eq_ok harguments).2, ?_, rfl⟩
      rcases queueHandshake_cases c named peerId with ⟨-, hqueued⟩ | ⟨failure, hfailed, -⟩
      · rw [hqueued]
      · rw [hintroduce] at hfailed
        cases hfailed

/-! ## Moves -/

omit [Capability X] [SubProtocol Y] in
theorem IsPlain.send (h : c.IsPlain fast now digest limit) (message : Message) :
    (c.send now message).1.IsPlain fast now digest limit := by
  have hstanding := standing_send c now message
  have hlive : ¬ c.isDown = true := by simp [h.up]
  have hup := (isDown_eq_of_standing hstanding).trans h.up
  have hinfoHash : (c.send now message).1.state.infoHash = c.state.infoHash :=
    congrArg Standing.infoHash hstanding
  rw [Connection.send, if_neg hlive] at hup hinfoHash ⊢
  refine ⟨hup, h.reliable, h.equips, h.limit, ?_, ?_⟩
  · rw [hinfoHash]
    exact h.infoHash
  · change now ≤ if message = .keepAlive then now else c.lastKeepAlive
    split
    · exact Nat.le_refl _
    · exact h.awake

/-- What a plain move comes to: the connection stays plain and queues the messages of the
move, behind our handshake if it is one, or it breaks off and queues nothing. -/
inductive Continues (fast : Bool) (now : Nat) (digest : Digest) (limit : Nat)
    (c : Connection X Y) (m : Move X Y) : Prop where
  | goesOn (hplain : (c.move m).IsPlain fast now digest limit)
      (hspeaks : Speaks c (c.queuedBy m) m.said (c.move m))
  | breaksOff (hdown : (c.move m).isDown = true) (hqueue : c.queuedBy m = [])
      (hrefuses : c.Refuses digest)

theorem IsPlain.move (h : c.IsPlain fast now digest limit) (hframed : c.IsFramed)
    {m : Move X Y} {bound : Nat} (hm : m.IsPlain now digest bound) :
    c.Continues fast now digest limit m := by
  have hlive : ¬ c.isDown = true := by simp [h.up]
  have hspeaks : (∀ time infoHash bytes, m ≠ .call time (.handshake infoHash bytes)) →
      c.queuedBy m = m.said.map Message.encode → Speaks c (c.queuedBy m) m.said (c.move m) :=
    fun hother hqueue => .goesOn hqueue (move_steps_of_ne c hother)
  cases m with
  | stir stimulus =>
    have hreliable := h.reliable
    cases stimulus with
    | feed answers =>
      refine .goesOn ⟨h.up, ⟨hreliable.connected, ?_, hreliable.writes⟩, h.equips, h.limit,
        h.infoHash, h.awake⟩ (hspeaks nofun rfl)
      exact List.forall_mem_append.mpr ⟨hreliable.reads, hm⟩
    | planWrites answers =>
      refine .goesOn ⟨h.up, ⟨hreliable.connected, hreliable.reads, ?_⟩, h.equips, h.limit,
        h.infoHash, h.awake⟩ (hspeaks nofun rfl)
      exact List.forall_mem_append.mpr ⟨hreliable.writes, hm⟩
    | failConnect fault => exact hm.elim
    | setConnected connected => exact hm.elim
  | call time call =>
    cases call with
    | handshake infoHash bytes =>
      rcases h.handshake_cases hm bytes with
        ⟨hqueue, hsame | ⟨hclosed, hrefuses⟩⟩ | ⟨peerId, hunsent, hnow, hqueue⟩
      · have hmove : c.move (.call time (.handshake infoHash bytes)) = c := hsame
        refine .goesOn (hmove.symm ▸ h) ?_
        rw [hmove]
        exact .goesOn hqueue .refl
      · exact .breaksOff ((congrArg Connection.isDown hclosed).trans (isDown_teardown c)) hqueue
          hrefuses
      · have hmove : c.move (.call time (.handshake infoHash bytes)) =
          c.introduced digest peerId := hnow
        have hgreeted := greet_ownHandshake c digest peerId
        refine .goesOn (hmove.symm ▸ h.introduced peerId) ?_
        rw [hmove]
        exact .begins _ hunsent hqueue hgreeted.1 hgreeted.2
    | process =>
      obtain rfl := hm
      have hnothing := h.queuedInRound_eq_nil
      rcases h.process hframed with hplain | ⟨hdown, hrefuses⟩
      · exact .goesOn hplain (hspeaks nofun hnothing)
      · exact .breaksOff hdown hnothing hrefuses
    | send message =>
      obtain ⟨rfl, -⟩ := hm
      have hqueue : c.messages (.send message) = [message] := if_neg hlive
      exact .goesOn (h.send message) (hspeaks nofun (congrArg _ hqueue))
    | sendBitfield pieces disguised =>
      obtain ⟨rfl, rfl, -⟩ := hm
      have hqueue : c.messages (.sendBitfield pieces false) = [.bitfield pieces.toBytes] :=
        if_neg hlive
      exact .goesOn (h.send (.bitfield pieces.toBytes)) (hspeaks nofun (congrArg _ hqueue))
    | setPieceCount | nextEvent | drainEvents =>
      exact .goesOn ⟨h.up, h.reliable, h.equips, h.limit, h.infoHash, h.awake⟩
        (hspeaks nofun rfl)
    | _ => exact hm.elim

/-! ## What is written -/

/-- Up to the moves `earlier` the run was plain and queued what it was to send, behind our
handshake.  Nothing else was written, and as long as the run is up, `earlier` are all moves. -/
structure HasSpoken (fast : Bool) (now : Nat) (digest : Digest) (limit : Nat)
    (start : Connection X Y) (moves earlier : List (Move X Y)) : Prop where
  front : earlier <+: moves
  plain : (start.play earlier).IsPlain fast now digest limit
  spoke : (start.play earlier).Spoke (start.queued earlier) (earlier.flatMap Move.said)
  written : (start.play moves).transport.written <+: (start.queued earlier).flatten
  whole : (start.play moves).isDown = false → earlier = moves

theorem HasSpoken.concat {connected : Bool} {config : Config} {opened bound : Nat}
    {moves earlier : List (Move X Y)} {m : Move X Y} :
    let start : Connection X Y := new (.new connected) config opened
    HasSpoken fast now digest limit start moves earlier → HoldsBack start (moves ++ [m]) →
      m.IsPlain now digest bound →
      ∃ later, HasSpoken fast now digest limit start (moves ++ [m]) later := by
  intro start h hholds hm
  have hemits := move_emits (start.play moves) m
  have hmove := play_concat start moves m
  cases hup : (start.play moves).isDown with
  | true =>
    refine ⟨earlier, h.front.trans (List.prefix_append moves [m]), h.plain, h.spoke, ?_, ?_⟩
    · rw [hmove, hemits.dead hup]
      exact h.written
    · intro hlive
      rw [hmove] at hlive
      rw [(hemits.up hlive).1] at hup
      cases hup
  | false =>
    obtain rfl := h.whole hup
    have hrun := play_emits start
    have hframed : (start.play earlier).IsFramed := IsReachable.isFramed ⟨_, _, _, earlier, rfl⟩
    cases h.plain.move hframed hm with
    | goesOn hplain hspeaks =>
      rw [← hmove] at hplain
      refine ⟨earlier ++ [m], List.prefix_refl _, hplain, ?_, ?_, fun _ => rfl⟩
      · rw [List.flatMap_append, List.flatMap_singleton]
        exact hholds.spoke_concat hplain.up h.spoke hspeaks
      · exact (hrun (earlier ++ [m])).written (isDown_new _ _ _)
    | breaksOff hdown hqueue hrefuses =>
      refine ⟨earlier, List.prefix_append earlier [m], h.plain, h.spoke, ?_, ?_⟩
      · have hwritten := hemits.written hup
        rw [hqueue, List.flatten_nil, List.append_nil, ((hrun earlier).up hup).2] at hwritten
        rw [hmove]
        exact hwritten
      · intro hlive
        rw [hmove, hdown] at hlive
        cases hlive

theorem HasSpoken.append {connected : Bool} {config : Config} {opened bound : Nat}
    {moves earlier more : List (Move X Y)} (hplain : ∀ m ∈ more, m.IsPlain now digest bound) :
    let start : Connection X Y := new (.new connected) config opened
    HasSpoken fast now digest limit start moves earlier → HoldsBack start (moves ++ more) →
      ∃ later, HasSpoken fast now digest limit start (moves ++ more) later := by
  intro start h
  induction more using List.reverseRecOn with
  | nil =>
    intro _
    rw [List.append_nil]
    exact ⟨earlier, h⟩
  | append_singleton more m ih =>
    obtain ⟨hmore, hlast⟩ := List.forall_mem_append.mp hplain
    rw [← List.append_assoc]
    intro hholds
    obtain ⟨later, hlater⟩ := ih hmore hholds.earlier
    exact hlater.concat hholds (List.forall_mem_singleton.mp hlast)

/-! ## What is heard -/

section Hearing

variable {c : Connection Empty Empty} {bound : Nat}

/-- A move that is not a round tells nothing. -/
theorem IsPlain.keeps_events (h : c.IsPlain fast now digest limit) {m : Move Empty Empty}
    (hm : m.IsPlain now digest bound) (hup : (c.move m).isDown = false)
    (hround : ∀ time, m ≠ .call time .process) :
    c.takenBy m ++ (c.move m).outbox.events = c.outbox.events := by
  cases m with
  | stir stimulus => rfl
  | call time call =>
    cases call with
    | handshake infoHash bytes =>
      change (c.handshake infoHash bytes).1.isDown = false at hup
      change (c.handshake infoHash bytes).1.outbox.events = c.outbox.events
      rcases h.handshake_cases hm bytes with
        ⟨-, hsame | ⟨hclosed, -⟩⟩ | ⟨peerId, -, hnow, -⟩
      · rw [hsame]
      · rw [hclosed, isDown_teardown] at hup
        cases hup
      · rw [hnow, Connection.introduced, h.introduce_eq]
        exact List.append_nil _
    | process => exact absurd rfl (hround time)
    | send message => exact queue_of_sends c time (.send message) trivial
    | sendBitfield pieces disguised =>
      exact queue_of_sends c time (.sendBitfield pieces disguised) trivial
    | nextEvent => exact queue_of_nextEvent c time
    | drainEvents => exact List.append_nil _
    | setPieceCount count => rfl
    | _ => exact hm.elim

/-- What a plain move tells goes with the messages that it hands on. -/
theorem IsPlain.raises (h : c.IsPlain fast now digest limit) {m : Move Empty Empty}
    (hm : m.IsPlain now digest bound) (hup : (c.move m).isDown = false) :
    ∃ raised, c.takenBy m ++ (c.move m).outbox.events = c.outbox.events ++ raised ∧
      Reports fast limit (c.framesIn m) raised := by
  by_cases hround : ∃ time, m = .call time .process
  · obtain ⟨time, rfl⟩ := hround
    have hopen : c.IsOpen := ⟨h.up, h.reliable.connected⟩
    obtain ⟨raised, hraised, -⟩ :=
      move_retells Capability.queues_empty SubProtocol.queues_empty c (.call time .process)
    refine ⟨raised, hraised, ?_⟩
    obtain ⟨hgoes, -⟩ := hopen.process_goesOn hup
    have hnews := hgoes.news
    have hevents : (c.process time).1.outbox.events = c.outbox.events ++ raised := hraised
    rw [hevents, Event.news_append, List.append_cancel_left_eq] at hnews
    have hreports :=
      h.equips.reports_listen (c.listener.feed c.arrival.data) limit hgoes.result
    rw [hopen.framesIn_process hup]
    intro told hframes hplain
    rw [Event.ofMessages, hnews]
    exact hreports told hframes hplain
  · have hround := not_exists.mp hround
    have hnone : c.framesIn m = [] := by
      cases m with
      | stir stimulus => rfl
      | call time call =>
        cases call with
        | process => exact absurd rfl (hround time)
        | _ => rfl
    rw [hnone]
    exact ⟨[], (h.keeps_events hm hup hround).trans (List.append_nil _).symm, .nil fast limit⟩

/-- Without custom modules nothing is told in front of the handshake of the peer, and
behind it there is nothing but what the peer said, as long as the connection is up. -/
theorem Recounts.news_eq {c : Connection Empty Empty} {told : List Event} {peer : Handshake}
    (h : c.Recounts told) (hmet : c.acquaintance = .of peer)
    (hquiet : .droppedConnection ∉ told) :
    Event.news told = .handshakeComplete peer.peerId peer.reserved :: Event.ofMessages told := by
  cases h with
  | alone halone _ =>
    rw [hmet] at halone
    cases halone
  | met same earlier later hsame htold hearlier hlater =>
    obtain rfl := Acquaintance.of_inj (hmet.symm.trans hsame)
    have hfront : Event.news earlier = [] := by
      rw [Event.news, List.filter_eq_nil_iff]
      intro event hevent
      cases hearlier event hevent with
      | noData => decide
      | droppedConnection =>
        rw [htold] at hquiet
        exact absurd (List.mem_append_left _ hevent) hquiet
      | @greeting m => exact m.elim
    have hback : Event.ofMessages later = Event.news later := by
      rw [Event.ofMessages, List.filter_eq_self]
      intro event hevent
      rw [hlater event (List.mem_of_mem_filter hevent)]
      rfl
    have hnews : Event.news told =
        .handshakeComplete peer.peerId peer.reserved :: Event.news later := by
      rw [htold, Event.news_append, hfront]
      rfl
    rw [hnews, Event.ofMessages, hnews]
    exact congrArg _ hback.symm

/-- The run is up and plain, and what it told goes with the frames that it handed on. -/
structure HasHeard (fast : Bool) (now : Nat) (digest : Digest) (limit : Nat)
    (start : Connection Empty Empty) (moves : List (Move Empty Empty)) : Prop where
  plain : (start.play moves).IsPlain fast now digest limit
  reports : Reports fast limit (start.framesOf moves) (start.history moves)

theorem HasHeard.concat {start : Connection Empty Empty} {moves : List (Move Empty Empty)}
    {m : Move Empty Empty} (h : HasHeard fast now digest limit start moves)
    (hm : m.IsPlain now digest bound)
    (hplain : ((start.play moves).move m).IsPlain fast now digest limit) :
    HasHeard fast now digest limit start (moves ++ [m]) := by
  obtain ⟨raised, hraised, hreports⟩ := h.plain.raises hm hplain.up
  constructor
  · rw [play_concat]
    exact hplain
  · rw [framesOf_concat, history_concat start moves m hraised]
    exact h.reports.append hreports

end Hearing

end Connection
end PeerLink
