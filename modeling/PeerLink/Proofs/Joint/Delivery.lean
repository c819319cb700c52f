import PeerLink.Proofs.Connection.PlainRun
import PeerLink.Proofs.Joint.Mirror

/-!
# All messages arrive

Two sides make handshakes with the same info hash and send each other messages that the
other one accepts, and the channels do anything to the bytes apart from losing them.  What
one side writes is then the front of what the other one awaits, also if the first one goes
down, so a side stays up if the other one queues its handshake in front of all else:
`Joint.hasHeard_of_holdsBack`.  When nothing is left on the way, every message was told
once and in order: `Joint.delivers_all`.
-/

namespace PeerLink

/-- The near side has no modules, and the far side has the fast extension. -/
def Side.hasFast : Side → Bool
  | near => false
  | far => true

/-- What happens is a plain move, or bytes are carried. -/
def Happening.IsPlain {X Y : Type} (config : Side → Config) (now : Nat) (digest : Digest) :
    Happening X Y → Prop
  | .move s m _ => m.IsPlain now digest (config s.other).maxFrameLength
  | .carry _ _ => True

instance {X Y : Type} (config : Side → Config) (now : Nat) (digest : Digest)
    (h : Happening X Y) : Decidable (h.IsPlain config now digest) :=
  match h with
  | .move s m _ =>
    inferInstanceAs (Decidable (m.IsPlain now digest (config s.other).maxFrameLength))
  | .carry _ _ => .isTrue trivial

namespace Joint

open Connection

/-- The far side adds the fast extension. -/
def equip (now : Nat) : Happening Empty Empty :=
  .call .far now (.addModule (.fast .empty))

/-- The messages that a side is to send. -/
def said {X Y : Type} [Capability X] [SubProtocol Y] (joint : Joint X Y) (s : Side)
    (happenings : List (Happening X Y)) : List Message :=
  (joint.movesOf s happenings).flatMap Move.said

variable {config : Side → Config} {now : Nat} {digest : Digest}

theorem movesIn_cases {X Y : Type} [Capability X] [SubProtocol Y] (joint : Joint X Y) (s : Side)
    {h : Happening X Y} (hplain : h.IsPlain config now digest) :
    joint.movesIn s h = [] ∨
      ∃ m, joint.movesIn s h = [m] ∧ m.IsPlain now digest (config s.other).maxFrameLength := by
  cases h with
  | move t m hm =>
    rw [movesIn]
    split
    · next hside =>
      subst hside
      exact .inr ⟨m, rfl, hplain⟩
    · exact .inl rfl
  | carry t count =>
    rw [movesIn]
    split
    · rw [Move.arrivals]
      split
      · exact .inl rfl
      · next hsome =>
        refine .inr ⟨_, rfl, List.forall_mem_singleton.mpr ?_⟩
        simpa [ReadAnswer.IsGood] using hsome
    · exact .inl rfl

theorem isPlain_of_mem_movesOf {X Y : Type} [Capability X] [SubProtocol Y] {s : Side}
    {happenings : List (Happening X Y)} (hplain : ∀ h ∈ happenings, h.IsPlain config now digest)
    (joint : Joint X Y) :
    ∀ m ∈ joint.movesOf s happenings, m.IsPlain now digest (config s.other).maxFrameLength := by
  induction happenings generalizing joint with
  | nil => exact List.forall_mem_nil _
  | cons h rest ih =>
    obtain ⟨hfirst, hrest⟩ := List.forall_mem_cons.mp hplain
    refine List.forall_mem_append.mpr ⟨?_, ih hrest _⟩
    rcases joint.movesIn_cases s hfirst with hnone | ⟨m, hm, hmove⟩
    · rw [hnone]
      exact List.forall_mem_nil _
    · rw [hm]
      exact List.forall_mem_singleton.mpr hmove

section Streams

variable {X Y : Type} {c d : Connection X Y} {queue : List Bytes} {messages : List Message}
  {read rest : Bytes} {frames : List Frame}

/-- What is left of a stream of plain messages is awaited. -/
theorem awaits_of_stream (hspoke : c.Spoke queue messages)
    (hplain : ∀ message ∈ messages, message.IsPlain d.buffer.limit)
    (hnames : ∀ own, c.state.infoHash = some own → own = digest) (hintake : d.Intake read frames)
    (hstream : read ++ rest = queue.flatten) : d.listener.Awaits digest rest := by
  obtain ⟨told, waiting, rfl, -, hwaiting⟩ := exists_waiting hspoke
    (fun message hmessage => (hplain message hmessage).2.1) hintake hstream
  obtain ⟨-, hleft⟩ := List.forall_mem_append.mp hplain
  cases hreceived : d.state.handshakeReceived with
  | true =>
    rw [hreceived, if_pos rfl] at hwaiting
    exact .messages waiting hreceived hleft hwaiting
  | false =>
    rw [hreceived, if_neg Bool.false_ne_true] at hwaiting
    generalize hall : told ++ waiting = messages at hspoke
    cases hspoke with
    | silent _ hown _ =>
      obtain ⟨-, rfl⟩ := List.append_eq_nil_iff.mp hall
      rw [hown] at hwaiting
      exact .nothing hreceived hwaiting
    | spoke own _ hown _ =>
      rw [hown] at hwaiting
      have hsame := hnames own.infoHash (Standing.infoHash_of_ownHandshake? hown)
      exact .handshake own waiting hreceived hsame hleft hwaiting

/-- The peer that was met on a stream is the one that made it. -/
theorem acquaintance_of_stream (hspoke : c.Spoke queue messages) (hintake : d.Intake read frames)
    (hstream : read ++ rest = queue.flatten) :
    d.acquaintance = .none ∨
      ∃ own, c.state.standing.ownHandshake? = some own ∧ d.acquaintance = .of own := by
  cases hintake with
  | awaits hpeer _ => exact .inl hpeer
  | met peer hpeer hbytes _ =>
    rw [hbytes, List.append_assoc] at hstream
    exact .inr ⟨peer, (hspoke.ownHandshake?_of_encode hstream).1, hpeer⟩

/-- Of a stream of which nothing is left, the handshake was met and all messages were handed
on. -/
theorem exists_met_of_stream (hspoke : c.Spoke queue messages)
    (hsent : c.state.handshakeSent = true)
    (hvalid : ∀ message ∈ messages, message.toFrame.IsValid) (hintake : d.Intake read frames)
    (hstream : read ++ rest = queue.flatten) (hnothing : d.buffer.bytes ++ rest = []) :
    ∃ own, c.state.standing.ownHandshake? = some own ∧ d.acquaintance = .of own ∧
      frames = messages.map Message.toFrame := by
  obtain ⟨own, hown⟩ : ∃ own, c.state.standing.ownHandshake? = some own := by
    cases hspoke with
    | silent hunsent _ _ =>
      rw [hsent] at hunsent
      cases hunsent
    | spoke own _ hown _ => exact ⟨own, hown⟩
  obtain ⟨told, waiting, rfl, hframes, hwaiting⟩ := exists_waiting hspoke hvalid hintake hstream
  rw [hnothing, hown] at hwaiting
  obtain ⟨hopening, hmessages⟩ := List.append_eq_nil_iff.mp hwaiting.symm
  -- Neither a handshake nor a message is without bytes, so none of them is left.
  have hreceived : d.state.handshakeReceived = true := by
    by_contra hunreceived
    rw [if_neg hunreceived] at hopening
    exact Handshake.encode_ne_nil own hopening
  obtain rfl : waiting = [] := by
    rw [List.eq_nil_iff_forall_not_mem]
    intro message hmessage
    exact message.encode_ne_nil (List.flatMap_eq_nil_iff.mp hmessages message hmessage)
  rw [List.append_nil]
  rcases acquaintance_of_stream hspoke hintake hstream with hnone | ⟨same, hsame, hpeer⟩
  · have hunreceived : d.state.handshakeReceived = false := congrArg Acquaintance.received hnone
    rw [hreceived] at hunreceived
    cases hunreceived
  · obtain rfl := Option.some.inj (hown.symm.trans hsame)
    exact ⟨own, hown, hpeer, hframes⟩

end Streams

section Runs

variable {rest : List (Happening Empty Empty)}

/-- Behind the far side's extension, both sides make plain moves. -/
theorem movesOf_equip (hplain : ∀ h ∈ rest, h.IsPlain config now digest) (s : Side) :
    let start : Joint Empty Empty := new (fun _ => true) config now
    ∃ moves, start.movesOf s (equip now :: rest) = start.movesOf s [equip now] ++ moves ∧
      ∀ m ∈ moves, m.IsPlain now digest (config s.other).maxFrameLength := by
  intro start
  refine ⟨(start.happen (equip now)).movesOf s rest, ?_, isPlain_of_mem_movesOf hplain _⟩
  cases s <;> rfl

theorem isPlain_of_mem_said (hplain : ∀ h ∈ rest, h.IsPlain config now digest) (s : Side) :
    let start : Joint Empty Empty := new (fun _ => true) config now
    ∀ m ∈ start.movesOf s (equip now :: rest), ∀ message ∈ m.said,
      message.IsPlain (config s.other).maxFrameLength := by
  intro start
  obtain ⟨moves, hmoves, hlater⟩ := movesOf_equip hplain s
  rw [hmoves, List.forall_mem_append]
  refine ⟨?_, fun m hm => (hlater m hm).said⟩
  cases s with
  | near => exact List.forall_mem_nil _
  | far => exact List.forall_mem_singleton.mpr (List.forall_mem_nil _)

theorem plain_equip (config : Side → Config) (now : Nat) (digest : Digest) (s : Side) :
    let start : Joint Empty Empty := new (fun _ => true) config now
    ((start.side s).play (start.movesOf s [equip now])).IsPlain s.hasFast now digest
      (config s).maxFrameLength := by
  intro start
  have hup : ∀ t, (start.side t).isDown = false := fun t => isDown_new _ _ _
  have hreliable : (Transport.new true).IsReliable :=
    ⟨rfl, List.forall_mem_nil _, List.forall_mem_nil _⟩
  cases s with
  | near => exact ⟨hup .near, hreliable, .bare, rfl, nofun, Nat.le_refl _⟩
  | far => exact ⟨hup .far, hreliable, .fast .empty, rfl, nofun, Nat.le_refl _⟩

/-- What a side writes is the front of its handshake and what it was to send up to some move. -/
theorem exists_hasSpoken (hplain : ∀ h ∈ rest, h.IsPlain config now digest) (s : Side) :
    let start : Joint Empty Empty := new (fun _ => true) config now
    let moves := start.movesOf s (equip now :: rest)
    (start.side s).HoldsBack moves →
      ∃ earlier, HasSpoken s.hasFast now digest (config s).maxFrameLength (start.side s) moves
        earlier := by
  intro start moves hholds
  have hequipped : HasSpoken s.hasFast now digest (config s).maxFrameLength (start.side s)
      (start.movesOf s [equip now]) (start.movesOf s [equip now]) := by
    refine ⟨List.prefix_refl _, plain_equip config now digest s, ?_, ?_, fun _ => rfl⟩
    · cases s <;> exact .silent rfl rfl rfl
    · cases s <;> exact List.nil_prefix
  obtain ⟨later, hmoves, hlater⟩ := movesOf_equip hplain s
  have hall : moves = start.movesOf s [equip now] ++ later := hmoves
  rw [hall] at hholds ⊢
  exact HasSpoken.append hlater hequipped hholds

/-- What is on the way to a side, and what it has not read, is the front of what it awaits. -/
theorem awaits_of_hasSpoken {happenings : List (Happening Empty Empty)} {s : Side}
    {earlier : List (Move Empty Empty)} {fast fast' : Bool} {limit : Nat} :
    let start : Joint Empty Empty := new (fun _ => true) config now
    let moves := start.movesOf s happenings
    HasHeard fast now digest (config s).maxFrameLength (start.side s) moves →
      HasSpoken fast' now digest limit (start.side s.other) (start.movesOf s.other happenings)
        earlier →
      (∀ m ∈ earlier, ∀ message ∈ m.said, message.IsPlain (config s).maxFrameLength) →
      ∃ later, ((start.side s).play moves).listener.Awaits digest
          (Transport.unread ((start.side s).play moves).transport.reads ++ later) ∧
        ∀ remote, ((start.side s).play moves).remoteInfoHash = some remote → remote = digest := by
  intro start moves hreceiver hsender hplain
  have hcarried : (start.side s).incoming moves ++ (start.go happenings).onWay s =
      ((start.go happenings).side s.other).transport.written :=
    incoming_append_onWay (fun _ => true) config now happenings s
  rw [side_go, ← bytesRead_append_unread] at hcarried
  obtain ⟨lost, hlost⟩ := hsender.written
  rw [← hcarried, List.append_assoc, List.append_assoc] at hlost
  have hintake := play_intake (.new true) (config s) now moves hreceiver.plain.up
  have hmessages : ∀ message ∈ earlier.flatMap Move.said,
      message.IsPlain ((start.side s).play moves).buffer.limit := by
    intro message hmessage
    obtain ⟨m, hm, hsaid⟩ := List.mem_flatMap.mp hmessage
    rw [hreceiver.plain.limit]
    exact hplain m hm message hsaid
  refine ⟨_, awaits_of_stream hsender.spoke hmessages hsender.plain.infoHash hintake hlost, ?_⟩
  intro remote hremote
  rcases acquaintance_of_stream hsender.spoke hintake hlost with hnone | ⟨own, hown, hpeer⟩
  · have hunknown := congrArg Acquaintance.infoHash hnone
    cases hremote.symm.trans hunknown
  · have hknown := congrArg Acquaintance.infoHash hpeer
    obtain rfl := Option.some.inj (hremote.symm.trans hknown)
    exact hsender.plain.infoHash own.infoHash (Standing.infoHash_of_ownHandshake? hown)

/-- A side stays up and tells what it hears if the other one queues its handshake in front
of all else. -/
theorem hasHeard_of_holdsBack (hplain : ∀ h ∈ rest, h.IsPlain config now digest) (s : Side) :
    let start : Joint Empty Empty := new (fun _ => true) config now
    (start.side s.other).HoldsBack (start.movesOf s.other (equip now :: rest)) →
      HasHeard s.hasFast now digest (config s).maxFrameLength (start.side s)
        (start.movesOf s (equip now :: rest)) := by
  intro start
  induction rest using List.reverseRecOn with
  | nil =>
    intro _
    refine ⟨plain_equip config now digest s, ?_⟩
    cases s <;> exact .nil _ _
  | append_singleton rest h ih =>
    intro hholds
    obtain ⟨hearlier, hlast⟩ := List.forall_mem_append.mp hplain
    have hmoves : ∀ t, start.movesOf t (equip now :: (rest ++ [h])) =
        start.movesOf t (equip now :: rest) ++ (start.go (equip now :: rest)).movesIn t h :=
      fun t => movesOf_concat start t (equip now :: rest) h
    have hback := (hmoves s.other ▸ hholds).earlier
    have hbefore := ih hearlier hback
    rw [hmoves]
    rcases (start.go (equip now :: rest)).movesIn_cases s
      (List.forall_mem_singleton.mp hlast) with hnone | ⟨m, hm, hmplain⟩
    · rw [hnone, List.append_nil]
      exact hbefore
    · obtain ⟨moves, hspoken⟩ := exists_hasSpoken hearlier s.other hback
      have hsaid := isPlain_of_mem_said hearlier s.other
      rw [Side.other_other] at hsaid
      obtain ⟨later, hawaits, hpeer⟩ := awaits_of_hasSpoken hbefore hspoken
        fun m hm => hsaid m (hspoken.front.mem hm)
      have hframed : ((start.side s).play (start.movesOf s (equip now :: rest))).IsFramed :=
        IsReachable.isFramed ⟨_, _, _, _, rfl⟩
      rw [hm]
      cases hbefore.plain.move hframed hmplain with
      | goesOn hplain _ => exact hbefore.concat hmplain hplain
      | breaksOff _ _ hrefuses => exact absurd hrefuses (hbefore.plain.not_refuses hawaits hpeer)

end Runs

/-- Let two sides make handshakes with the same info hash and send plain messages that the
other side accepts, over transports that neither fail nor end.  The near side has no
modules, and the far side has the fast extension.  The near side queues its handshake in
front of all else.  However the bytes are written in parts, carried in chunks and read in
rounds, the far side stays up, and so does the near side if the far one, too, queues its
handshake first.  Once the handshake of the near side is queued and nothing that this side
queued is still to be dispatched, the news of the far side are that handshake and then one
event for each message of the near side, in order. -/
theorem delivers_all {rest : List (Happening Empty Empty)}
    (hplain : ∀ h ∈ rest, h.IsPlain config now digest) :
    let start : Joint Empty Empty := new (fun _ => true) config now
    let happenings := equip now :: rest
    let final := start.go happenings
    (start.side .near).HoldsBack (start.movesOf .near happenings) →
      (final.side .far).isDown = false ∧
      ((start.side .far).HoldsBack (start.movesOf .far happenings) →
        (final.side .near).isDown = false) ∧
      ((final.side .near).isDown = false → (final.side .near).state.handshakeSent = true →
        final.undispatched .far = [] →
        ∃ own events, (final.side .near).state.standing.ownHandshake? = some own ∧
          (start.said .near happenings).map Message.event? = events.map some ∧
          Event.news ((start.side .far).history (start.movesOf .far happenings)) =
            .handshakeComplete own.peerId own.reserved :: events) := by
  intro start happenings final hholds
  have hfar := hasHeard_of_holdsBack hplain .far hholds
  have hsame : ∀ t, final.side t = (start.side t).play (start.movesOf t happenings) :=
    fun t => side_go start t happenings
  refine ⟨hsame .far ▸ hfar.plain.up, ?_, ?_⟩
  · intro hback
    exact hsame .near ▸ (hasHeard_of_holdsBack hplain .near hback).plain.up
  intro hup hsent hnothing
  obtain ⟨earlier, hspoken⟩ := exists_hasSpoken hplain .near hholds
  obtain rfl := hspoken.whole (hsame .near ▸ hup)
  have hmessages : ∀ message ∈ start.said .near happenings,
      message.IsPlain (config .far).maxFrameLength := by
    intro message hmessage
    obtain ⟨m, hm, hsaid⟩ := List.mem_flatMap.mp hmessage
    exact isPlain_of_mem_said hplain .near m hm message hsaid
  have hstream := bytesRead_append (fun _ => true) config now happenings .far hup
  have hintake := play_intake (.new true) (config .far) now (start.movesOf .far happenings)
    hfar.plain.up
  rw [undispatched, List.append_assoc, List.append_assoc, hsame .far] at hnothing
  rw [hsame .near] at hsent
  rw [side_go start .far happenings] at hstream
  obtain ⟨own, hown, hpeer, hframes⟩ := exists_met_of_stream hspoken.spoke hsent
    (fun message hmessage => (hmessages message hmessage).2.1) hintake hstream hnothing
  have hreports := hfar.reports _ hframes hmessages
  have hquiet := droppedConnection_not_mem_history Capability.queues_empty
    SubProtocol.queues_empty (isDown_new (.new true) (config .far) now) List.not_mem_nil
    hfar.plain.up
  have hrecounts := play_recounts Capability.queues_empty SubProtocol.queues_empty (.new true)
    (config .far) now (start.movesOf .far happenings)
  rw [hsame .near]
  exact ⟨own, _, hown,
    Message.map_event?_eq fun message hmessage => (hmessages message hmessage).1,
    (hrecounts.news_eq hpeer hquiet).trans (congrArg _ hreports)⟩

/-- The near side sends messages of all kinds, and the far side one of its own.  Bytes are
written in parts and carried in chunks, and both sides work in between. -/
def chatter : List (Happening Empty Empty) :=
  [.call .near 0 (.handshake "0000000000000000000000000000000000000000" (List.replicate 20 7)),
    .call .far 0 (.handshake "0000000000000000000000000000000000000000" (List.replicate 20 8)),
    .call .near 0 (.sendBitfield (.ofPayload [160, 1]) false),
    .call .near 0 (.send (.suggest 3)),
    .planWrites .near [.accept 40, .fault .interrupted, .accept 30, .fault .wouldBlock],
    .call .near 0 .process, .carry .far 69, .call .far 0 .process,
    .call .near 0 (.send .unchoke),
    .call .far 0 (.send .interested), .call .far 0 .process,
    .carry .near 70, .call .near 0 .process, .carry .near 9,
    .call .near 0 (.send (.piece ⟨1, 0, [1, 2, 3]⟩)),
    .call .near 0 (.send .keepAlive),
    .call .near 0 (.send (.reject ⟨1, 0, 16384⟩)),
    .call .near 0 .process, .carry .far 20, .call .far 0 .process,
    .call .far 0 .drainEvents, .carry .far 100, .call .far 0 .process]

theorem delivers_all_of_chatter :
    let start : Joint Empty Empty := new (fun _ => true) (fun _ => .standard) 0
    let happenings := equip 0 :: chatter
    (∀ s, ((start.go happenings).side s).isDown = false) ∧
      ∃ own : Handshake, Event.news ((start.side .far).history (start.movesOf .far happenings)) =
        [.handshakeComplete own.peerId own.reserved, .bitfield (.ofPayload [160, 1]), .suggest 3,
          .unchoke, .piece ⟨1, 0, [1, 2, 3]⟩, .keepAlive, .reject ⟨1, 0, 16384⟩] := by
  intro start happenings
  let digest : Digest := Vector.replicate 20 0
  have hplain : ∀ h ∈ chatter, h.IsPlain (fun _ => .standard) 0 digest := by decide +kernel
  have hholds : (start.side .near).HoldsBack (start.movesOf .near happenings) :=
    holdsBack_of_greeting rfl (by decide +kernel)
  have hback : (start.side .far).HoldsBack (start.movesOf .far happenings) :=
    HoldsBack.cons rfl (holdsBack_of_greeting rfl (by decide +kernel))
  have hsaid : start.said .near happenings = [.bitfield [160, 1], .suggest 3, .unchoke,
      .piece ⟨1, 0, [1, 2, 3]⟩, .keepAlive, .reject ⟨1, 0, 16384⟩] := by decide +kernel
  obtain ⟨hfar, hboth, hdelivers⟩ := delivers_all hplain hholds
  have hnear := hboth hback
  obtain ⟨own, events, -, hevents, hnews⟩ :=
    hdelivers hnear (by decide +kernel) (by decide +kernel)
  refine ⟨?_, own, hnews.trans (congrArg _ ?_)⟩
  · intro s
    cases s with
    | near => exact hnear
    | far => exact hfar
  · have htold := hevents.symm.trans (congrArg _ hsaid)
    exact List.map_injective_iff.mpr (fun _ _ => Option.some.inj) htold

end Joint
end PeerLink
