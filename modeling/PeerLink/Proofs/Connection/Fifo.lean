import Mathlib.Data.List.Basic
import PeerLink.Proofs.Connection.Finality
import PeerLink.Proofs.Connection.Outbound
import PeerLink.Proofs.Connection.Posting
import PeerLink.Proofs.Connection.Round

/-!
# First in, first out

All that a connection ever queues makes one stream of bytes, `Connection.queued`.  What
was written begins this stream, and as long as the connection is up, what still waits is
the rest of it: nothing is lost, doubled or put in another order, wherever the transport
cuts the frames.  A round leaves something waiting only if the transport put it off.
-/

namespace PeerLink

/-! ## Attempts to write -/

/-- One attempt to write: the bytes that are offered, and what is answered. -/
structure Attempt where
  offered : Bytes
  answer : WriteAnswer
  deriving DecidableEq, Repr

/-- The bytes of which an attempt is rid. -/
def Attempt.accepted (attempt : Attempt) : Bytes :=
  match attempt.answer with
  | .accept count => attempt.offered.take count
  | .fault _ => []

namespace Transport

/-- The attempts at one frame.  Each offers what the last one left. -/
def frameAttempts (frame : Bytes) : List WriteAnswer → List Attempt
  | [] => [⟨frame, .accept frame.length⟩]
  | .fault .interrupted :: rest => ⟨frame, .fault .interrupted⟩ :: frameAttempts frame rest
  | .fault cause :: _ => [⟨frame, .fault cause⟩]
  | .accept count :: rest =>
    ⟨frame, .accept count⟩ ::
      if 0 < count ∧ count < frame.length then frameAttempts (frame.drop count) rest else []

/-- The attempts at frames in order.  The next frame has its turn when nothing is left of
the last one. -/
def attempts (writes : List WriteAnswer) : List Bytes → List Attempt
  | [] => []
  | frame :: rest =>
    let first := writeFrame frame writes
    frameAttempts frame writes ++ if first.pending = [] then attempts first.writes rest else []

/-- The last of some attempts was put off. -/
def EndBlocked (made : List Attempt) : Prop :=
  (made.map Attempt.answer).getLast? = some (.fault .wouldBlock)

/-- Attempts account for what writing came to: they get the answers that were planned,
as far as there are any, and something is left if the last of them was put off. -/
structure Account (made : List Attempt) (writes : List WriteAnswer) (progress : Progress) :
    Prop where
  answers : (made.map Attempt.answer).take writes.length ++ progress.writes = writes
  accepted : made.flatMap Attempt.accepted = progress.accepted
  leaves : EndBlocked made → progress.pending ≠ []
  blocked : progress.fault = none → progress.pending ≠ [] → EndBlocked made

variable {attempt : Attempt} {made later : List Attempt} {writes rest : List WriteAnswer}
  {progress : Progress}

theorem Account.single (hwrites : progress.writes = rest)
    (haccepted : attempt.accepted = progress.accepted)
    (hleaves : attempt.answer = .fault .wouldBlock → progress.pending ≠ [])
    (hblocked : progress.fault = none → progress.pending ≠ [] →
      attempt.answer = .fault .wouldBlock) :
    Account [attempt] (attempt.answer :: rest) progress := by
  refine ⟨?_, (List.append_nil _).trans haccepted, ?_, ?_⟩
  · simp [hwrites]
  · simpa [EndBlocked] using hleaves
  · simpa [EndBlocked] using hblocked

/-- An attempt that is followed by others decides nothing but what it gets accepted. -/
theorem Account.cons (h : Account made rest progress) (hsome : made ≠ []) :
    Account (attempt :: made) (attempt.answer :: rest)
      { progress with accepted := attempt.accepted ++ progress.accepted } := by
  have hlast : EndBlocked (attempt :: made) ↔ EndBlocked made := by
    have hanswers : made.map Attempt.answer ≠ [] := by simpa using hsome
    rw [EndBlocked, List.map_cons, List.getLast?_cons_of_ne_nil hanswers]
    rfl
  refine ⟨congrArg (attempt.answer :: ·) h.answers, congrArg (attempt.accepted ++ ·) h.accepted,
    fun hend => h.leaves (hlast.mp hend), fun hfault hleft => hlast.mpr (h.blocked hfault hleft)⟩

/-- The attempts at the next frames come behind those at a frame of which nothing is
left. -/
theorem Account.append {first second : Progress} (h : Account made writes first)
    (hnothing : first.pending = []) (h' : Account later first.writes second) :
    Account (made ++ later) writes
      { second with accepted := first.accepted ++ second.accepted } := by
  have hlast : later ≠ [] → (EndBlocked (made ++ later) ↔ EndBlocked later) := by
    intro hsome
    have hanswers : later.map Attempt.answer ≠ [] := by simpa using hsome
    rw [EndBlocked, List.map_append, List.getLast?_append_of_ne_nil _ hanswers]
    rfl
  refine ⟨?_, ?_, ?_, ?_⟩
  · have hused := congrArg List.length h.answers
    have hleft : writes.length - (made.map Attempt.answer).length = first.writes.length := by
      rw [List.length_append, List.length_take] at hused
      omega
    rw [List.map_append, List.take_append, hleft, List.append_assoc]
    exact (congrArg _ h'.answers).trans h.answers
  · rw [List.flatMap_append, h.accepted, h'.accepted]
  · intro hend
    by_cases hsome : later = []
    · rw [hsome, List.append_nil] at hend
      exact absurd hnothing (h.leaves hend)
    · exact h'.leaves ((hlast hsome).mp hend)
  · intro hfault hleft
    have hend := h'.blocked hfault hleft
    refine (hlast ?_).mpr hend
    rintro rfl
    cases hend

theorem frameAttempts_ne_nil (frame : Bytes) (writes : List WriteAnswer) :
    frameAttempts frame writes ≠ [] := by
  fun_cases frameAttempts frame writes <;> exact List.cons_ne_nil _ _

theorem frameAttempts_account (frame : Bytes) (writes : List WriteAnswer) :
    Account (frameAttempts frame writes) writes (writeFrame frame writes) := by
  fun_induction writeFrame frame writes with
  | case1 frame hempty =>
    obtain rfl := List.isEmpty_iff.mp hempty
    exact ⟨rfl, rfl, fun _ => List.cons_ne_nil _ _, fun hfault => by cases hfault⟩
  | case2 frame hfull =>
    refine ⟨rfl, ?_, ?_, fun _ hleft => absurd rfl hleft⟩
    · simp [frameAttempts, Attempt.accepted]
    · simp [frameAttempts, EndBlocked]
  | case3 frame rest => exact .single rfl rfl (by simp) (by simp)
  | case4 frame rest ih => exact ih.cons (frameAttempts_ne_nil frame rest)
  | case5 frame fault rest hblock hinterrupt =>
    have hattempts : frameAttempts frame (.fault fault :: rest) = [⟨frame, .fault fault⟩] := by
      rw [frameAttempts]
      exact hinterrupt
    rw [hattempts]
    exact .single rfl rfl (by simp) (by simp)
  | case6 frame count rest hnothing =>
    have hattempts : frameAttempts frame (.accept count :: rest) = [⟨frame, .accept count⟩] := by
      rw [frameAttempts, if_neg (by omega)]
    have haccepted : frame.take count = [] := by
      rw [← List.length_eq_zero_iff, List.length_take]
      exact hnothing
    rw [hattempts]
    exact .single rfl haccepted (by simp) (by simp)
  | case7 frame count rest hsome hall =>
    have hattempts : frameAttempts frame (.accept count :: rest) = [⟨frame, .accept count⟩] := by
      rw [frameAttempts, if_neg (by omega)]
    rw [hattempts]
    exact .single rfl (List.take_of_length_le hall) (by simp) (by simp)
  | case8 frame count rest hsome hlong later ih =>
    have hattempts : frameAttempts frame (.accept count :: rest) =
        ⟨frame, .accept count⟩ :: frameAttempts (frame.drop count) rest := by
      rw [frameAttempts, if_pos (by omega)]
    rw [hattempts]
    exact ih.cons (frameAttempts_ne_nil _ rest)

theorem attempts_account (writes : List WriteAnswer) (frames : List Bytes) :
    Account (attempts writes frames) writes (writeAll writes frames) := by
  induction frames generalizing writes with
  | nil =>
    refine ⟨?_, rfl, fun hend => ?_, fun _ hleft => absurd rfl hleft⟩
    · simp [attempts, writeAll]
    · cases hend
  | cons frame rest ih =>
    have hframe := frameAttempts_account frame writes
    rw [attempts, writeAll]
    by_cases hdone : (writeFrame frame writes).pending = []
    · rw [if_pos hdone, if_pos (List.isEmpty_iff.mpr hdone)]
      exact hframe.append hdone (ih _)
    · rw [if_neg hdone, if_neg (by simpa using hdone), List.append_nil]
      refine ⟨hframe.answers, hframe.accepted, fun _ => by simp [hdone], fun hfault _ => ?_⟩
      exact hframe.blocked hfault hdone

end Transport

namespace Connection

variable {X Y : Type} [Capability X] [SubProtocol Y] {c d e : Connection X Y}

/-! ## What is queued -/

/-- The keep-alive that a round at the time `now` begins with, if one is due. -/
def keepAliveDue (c : Connection X Y) (now : Nat) : List Bytes :=
  if c.state.handshakeReceived && c.config.keepAliveInterval < now - c.lastKeepAlive then
    [Frame.keepAlive.encode]
  else []

/-- What a round queues: a keep-alive if one is due, and what the modules say to the
frames that came in. -/
def queuedInRound (c : Connection X Y) (now : Nat) : List Bytes :=
  if c.isDown = false ∧ c.transport.connected = true then
    c.keepAliveDue now ++
      if c.arrival.fault = none then
        (c.listener.feed c.arrival.data).listen.output.frames.map Frame.encode
      else []
  else []

/-- What an accepted call of `handshake` queues: our handshake, and what the modules have
to say behind it. -/
def queuedInGreeting (c : Connection X Y) (infoHash : String) (peerId : Bytes) : List Bytes :=
  match c.handshakeArguments infoHash peerId with
  | .error _ => []
  | .ok (digest, id) =>
    if c.remoteInfoHash.any (· != digest) then []
    else
      let own : Handshake := ⟨Capability.reserved c.modules, digest, id⟩
      own.encode :: ((c.greet digest id).introduce own).output.frames.map Frame.encode

/-- What a move queues, oldest first. -/
def queuedBy (c : Connection X Y) : Move X Y → List Bytes
  | .stir _ => []
  | .call _ (.handshake infoHash peerId) => c.queuedInGreeting infoHash peerId
  | .call now .process => c.queuedInRound now
  | .call _ call => (c.messages call).map Message.encode

/-- All that is queued in a run, oldest first. -/
def queued (c : Connection X Y) (moves : List (Move X Y)) : List Bytes := along queuedBy c moves

/-- From `c` to `d` the stream of outgoing bytes grows by these bytes, unless the
connection goes down: then the stream ends in between. -/
structure Emits (c : Connection X Y) (bytes : Bytes) (d : Connection X Y) : Prop where
  grows : c.transport.written <+: d.transport.written
  written : c.isDown = false → d.transport.written <+: c.outgoing ++ bytes
  up : d.isDown = false → c.isDown = false ∧ d.outgoing = c.outgoing ++ bytes
  dead : c.isDown = true → d.transport.written = c.transport.written

namespace Emits

omit [Capability X] [SubProtocol Y]

theorem queued {frames : List Bytes} (hpending : d.outbox.pending = c.outbox.pending ++ frames)
    (hwritten : d.transport.written = c.transport.written) (hdown : d.isDown = c.isDown) :
    Emits c frames.flatten d := by
  have hstream : d.outgoing = c.outgoing ++ frames.flatten := by
    rw [outgoing, outgoing, hwritten, hpending, List.flatten_append, List.append_assoc]
  refine ⟨hwritten ▸ List.prefix_refl _, ?_, ?_, fun _ => hwritten⟩
  · intro _
    rw [← hstream]
    exact List.prefix_append _ _
  · intro hup
    exact ⟨hdown.symm.trans hup, hstream⟩

theorem silent (hpending : d.outbox.pending = c.outbox.pending)
    (hwritten : d.transport.written = c.transport.written) (hdown : d.isDown = c.isDown) :
    Emits c [] d := by
  have hnone : d.outbox.pending = c.outbox.pending ++ [] := by
    rw [hpending, List.append_nil]
  exact queued hnone hwritten hdown

theorem isDown {bytes : Bytes} (h : Emits c bytes d) (hdown : c.isDown = true) :
    d.isDown = true := by
  by_contra hup
  have hlive := (h.up (by simpa using hup)).1
  simp [hdown] at hlive

theorem trans {first second : Bytes} (h : Emits c first d) (h' : Emits d second e) :
    Emits c (first ++ second) e := by
  refine ⟨h.grows.trans h'.grows, ?_, ?_, ?_⟩
  · intro hup
    cases hlive : d.isDown with
    | false =>
      have hstream := (h.up hlive).2
      rw [← List.append_assoc, ← hstream]
      exact h'.written hlive
    | true =>
      rw [h'.dead hlive, ← List.append_assoc]
      exact (h.written hup).trans (List.prefix_append _ _)
  · intro hup
    obtain ⟨hlive, hlater⟩ := h'.up hup
    obtain ⟨hfirst, hstream⟩ := h.up hlive
    exact ⟨hfirst, by rw [hlater, hstream, List.append_assoc]⟩
  · intro hdown
    exact (h'.dead (h.isDown hdown)).trans (h.dead hdown)

theorem posts {sent : List Message} (h : Posts c sent d) (hdown : d.isDown = c.isDown) :
    Emits c (sent.map Message.encode).flatten d :=
  queued h.pending (congrArg Transport.written h.transport) hdown

theorem flush (hup : c.isDown = false) : Emits c [] c.flush.1 := by
  have hsplit := Transport.writeAll_accepted_append_pending c.transport.writes c.outbox.pending
  have hstream : c.flush.1.outgoing = c.outgoing := by
    rw [outgoing, outgoing, ← hsplit, ← List.append_assoc]
    rfl
  refine ⟨List.prefix_append _ _, ?_, ?_, ?_⟩
  · intro _
    rw [List.append_nil, ← hstream]
    exact List.prefix_append _ _
  · intro _
    exact ⟨hup, hstream.trans (List.append_nil _).symm⟩
  · intro hdown
    simp [hup] at hdown

end Emits

theorem teardown_emits (c : Connection X Y) : Emits c [] c.teardown := by
  by_cases hdown : c.isDown = true
  · rw [teardown, if_pos hdown]
    exact .silent rfl rfl rfl
  · have hwritten : c.teardown.transport.written = c.transport.written := by
      rw [teardown, if_neg hdown]
      rfl
    refine ⟨hwritten ▸ List.prefix_refl _, ?_, ?_, fun _ => hwritten⟩
    · intro _
      rw [hwritten, List.append_nil]
      exact List.prefix_append _ _
    · intro hup
      rw [isDown_teardown] at hup
      cases hup

/-! ## Rounds and greetings -/

omit [Capability X] [SubProtocol Y] in
/-- Reading comes behind the keep-alive. -/
theorem receive_emits (c : Connection X Y) (now : Nat) :
    Emits c (c.keepAliveDue now).flatten (c.keepAlive now).receive.1 := by
  refine .queued ?_ ?_ (isDown_eq_of_standing (standing_keepAlive c now))
  · change (c.keepAlive now).outbox.pending = _
    rw [keepAlive, keepAliveDue]
    split
    · rfl
    · exact (List.append_nil _).symm
  · change (c.keepAlive now).transport.written = _
    rw [keepAlive]
    split <;> rfl

theorem consumed_emits (hup : c.isDown = false) (now : Nat) :
    Emits c ((c.keepAliveDue now).flatten ++
      ((c.listener.feed c.arrival.data).listen.output.frames.map Frame.encode).flatten)
      (c.consumed now) := by
  obtain ⟨fed, hreceive, hlistener, -, -⟩ := exists_receive_keepAlive c now
  have hfed := receive_emits c now
  have htakes := consume_takesIn fed
  have hdown := (consumed_pollSteps hup now).2
  have hlive : (c.keepAlive now).receive.1.isDown = false :=
    (isDown_eq_of_standing (standing_keepAlive c now)).trans hup
  rw [consumed] at hdown ⊢
  rw [hreceive] at hfed hdown hlive ⊢
  rw [← hlistener]
  refine hfed.trans (.queued ?_ (congrArg Transport.written htakes.transport)
    (hdown.trans hlive.symm))
  rw [htakes.outbox]
  rfl

theorem poll_emits (hc : c.IsOpen) (now : Nat) :
    Emits c (c.queuedInRound now).flatten (c.poll now).1 := by
  rw [queuedInRound, if_pos ⟨hc.up, hc.connected⟩]
  cases hfault : c.arrival.fault with
  | some failure =>
    have hpoll : (c.poll now).1 = (c.keepAlive now).receive.1 := by
      obtain ⟨fed, hreceive, -⟩ := exists_receive_keepAlive c now
      rw [poll, hreceive, hfault]
    rw [hpoll, if_neg (by simp), List.append_nil]
    exact receive_emits c now
  | none =>
    have hconsumed := consumed_emits hc.up now
    rw [if_pos rfl, List.flatten_append]
    cases hresult : (c.listener.feed c.arrival.data).listen.result with
    | error failure =>
      rw [poll_of_refused hfault hresult now]
      exact hconsumed
    | ok =>
      have hflushed := hconsumed.trans (.flush (consumed_pollSteps hc.up now).2)
      rw [List.append_nil] at hflushed
      rcases poll_of_taken hfault hresult now with ⟨-, hpoll⟩ | ⟨failure, -, hpoll⟩
      · have hidle : Emits (c.consumed now).flush.1 []
            ((c.consumed now).flush.1.noteIdle c.arrival.data.length) := by
          refine .silent ?_ ?_ (isDown_eq_of_standing (standing_noteIdle _ _))
          all_goals
            rw [noteIdle]
            split <;> rfl
        have hall := hflushed.trans hidle
        rw [hpoll]
        rw [List.append_nil] at hall
        exact hall
      · rw [hpoll]
        exact hflushed

theorem process_emits (c : Connection X Y) (now : Nat) :
    Emits c (c.queuedInRound now).flatten (c.process now).1 := by
  by_cases hopen : c.isDown = false ∧ c.transport.connected = true
  · have hc : c.IsOpen := ⟨hopen.1, hopen.2⟩
    have hpoll := poll_emits hc now
    cases hd : c.poll now with
    | mk d failure? =>
      rw [hd] at hpoll
      cases failure? with
      | none =>
        rw [hc.process_of_poll hd]
        exact hpoll
      | some failure =>
        have hclosed := hpoll.trans (teardown_emits d)
        rw [List.append_nil] at hclosed
        rw [hc.process_of_poll_failure hd]
        exact hclosed
  · rw [queuedInRound, if_neg hopen, process]
    split
    · exact .silent rfl rfl rfl
    · next hup =>
      split
      · split
        · exact .silent rfl rfl rfl
        · exact teardown_emits c
      · next hconnected => exact absurd ⟨by simpa using hup, by simpa using hconnected⟩ hopen

theorem introduced_emits (hup : c.isDown = false) (digest : Digest) (id : PeerId) :
    let own : Handshake := ⟨Capability.reserved c.modules, digest, id⟩
    Emits c (own.encode :: ((c.greet digest id).introduce own).output.frames.map
      Frame.encode).flatten (c.introduced digest id) := by
  intro own
  refine .queued ?_ rfl ((greet_isDown hup digest id).trans hup.symm)
  exact List.append_assoc c.outbox.pending [own.encode] _

theorem handshake_emits (c : Connection X Y) (infoHash : String) (peerId : Bytes) :
    Emits c (c.queuedInGreeting infoHash peerId).flatten (c.handshake infoHash peerId).1 := by
  rw [queuedInGreeting, handshake]
  cases harguments : c.handshakeArguments infoHash peerId with
  | error failure => exact .silent rfl rfl rfl
  | ok arguments =>
    obtain ⟨digest, id⟩ := arguments
    have hup := (handshakeArguments_eq_ok harguments).1
    dsimp only
    split
    · exact teardown_emits c
    · have hintroduced := introduced_emits hup digest id
      rcases queueHandshake_cases c digest id with ⟨-, hqueued⟩ | ⟨failure, -, hqueued⟩
      · rw [hqueued]
        exact hintroduced
      · have hclosed := hintroduced.trans (teardown_emits _)
        rw [List.append_nil] at hclosed
        rw [hqueued]
        exact hclosed

omit [Capability X] [SubProtocol Y] in
theorem connect_emits (c : Connection X Y) : Emits c [] c.connect.1 := by
  have hwritten : c.transport.connect.1.written = c.transport.written := by
    rw [Transport.connect]
    split <;> rfl
  have hdown := connect_isDown c
  rw [connect] at hdown ⊢
  split at hdown
  · next hlate =>
    rw [if_pos hlate]
    exact .silent rfl rfl rfl
  · next hup =>
    rw [if_neg hup]
    split at hdown
    · next transport failure ht =>
      rw [ht] at hwritten
      exact .silent rfl hwritten hdown
    · next transport ht =>
      rw [ht] at hwritten
      exact .silent rfl hwritten hdown

/-! ## Runs -/

theorem queuedBy_of_sends (c : Connection X Y) (now : Nat) {call : Call X Y} (h : call.Sends) :
    c.queuedBy (.call now call) = (c.messages call).map Message.encode := by
  cases call with
  | handshake | process => exact h.elim
  | _ => rfl

/-- What a move does to the stream of outgoing bytes. -/
theorem move_emits (c : Connection X Y) (m : Move X Y) :
    Emits c (c.queuedBy m).flatten (c.move m) := by
  cases m using Move.sendsCases with
  | stir stimulus =>
    refine .silent rfl ?_ rfl
    change (c.transport.stir stimulus).written = _
    cases stimulus <;> rfl
  | connect now => exact connect_emits c
  | handshake now infoHash peerId => exact handshake_emits c infoHash peerId
  | process now => exact process_emits c now
  | disconnect now => exact teardown_emits c
  | addModule now m =>
    change Emits c [] (c.addModule m).1
    rw [addModule]
    split <;> exact .silent rfl rfl rfl
  | setPieceCount now count => exact .silent rfl rfl rfl
  | nextEvent now => exact .silent rfl rfl rfl
  | drainEvents now => exact .silent rfl rfl rfl
  | sends now call h =>
    rw [queuedBy_of_sends c now h]
    exact .posts (perform_posts c now h)
      (isDown_eq_of_standing (perform_sendSteps c now call h).standing_eq)

theorem play_emits (start : Connection X Y) (moves : List (Move X Y)) :
    Emits start (start.queued moves).flatten (start.play moves) := by
  induction moves using List.reverseRecOn with
  | nil => exact .silent rfl rfl rfl
  | append_singleton moves m ih =>
    rw [play_concat, queued, along_concat, List.flatten_append]
    exact ih.trans (move_emits _ m)

/-- The attempts to write that a round makes. -/
def attempts (c : Connection X Y) (now : Nat) : List Attempt :=
  Transport.attempts c.transport.writes (c.consumed now).outbox.pending

omit [Capability X] [SubProtocol Y] in
/-- From `c` to `d` these attempts to write are made.  They get the answers that were
planned, as far as there are any; what they get accepted is written; and something still
waits exactly if the last of them was put off. -/
structure Flushes (c : Connection X Y) (made : List Attempt) (d : Connection X Y) : Prop where
  answers : (made.map Attempt.answer).take c.transport.writes.length ++ d.transport.writes =
    c.transport.writes
  written : d.transport.written = c.transport.written ++ made.flatMap Attempt.accepted
  blocked : d.outbox.pending ≠ [] ↔ Transport.EndBlocked made

theorem IsOpen.process_flushes (hc : c.IsOpen) {now : Nat} (hup : (c.process now).2 = true) :
    c.Flushes (c.attempts now) (c.process now).1 := by
  cases hpoll : c.poll now with
  | mk d failure? =>
    cases failure? with
    | some failure =>
      rw [hc.process_of_poll_failure hpoll] at hup
      cases hup
    | none =>
      obtain ⟨hfault, hgoes, -⟩ := poll_goesOn hpoll
      rcases poll_of_taken hfault hgoes.result now with ⟨hflush, htaken⟩ | ⟨failure, -, htaken⟩
      · obtain rfl := (Prod.mk.inj (hpoll.symm.trans htaken)).1
        let progress := Transport.writeAll c.transport.writes (c.consumed now).outbox.pending
        have haccount : Transport.Account (c.attempts now) c.transport.writes progress :=
          Transport.attempts_account _ _
        have htransport := (consumed_listens c now).2.2.2.2
        have hprogress : (c.consumed now).transport.write (c.consumed now).outbox.pending =
            progress := by
          rw [Transport.write, htransport]
        have hflushed : progress.fault = none := by
          rw [← hprogress]
          exact hflush
        have hidle := (noteIdle_keeps (c.consumed now).flush.1 c.arrival.data.length).2
        have hwaits : ((c.consumed now).flush.1.noteIdle c.arrival.data.length).outbox.pending =
            progress.pending := by
          rw [← hprogress, noteIdle]
          split <;> rfl
        rw [hc.process_of_poll hpoll]
        refine ⟨?_, ?_, ?_⟩
        · rw [hidle]
          change _ ++ ((c.consumed now).transport.write _).writes = _
          rw [hprogress]
          exact haccount.answers
        · rw [hidle]
          change (c.consumed now).transport.written ++ ((c.consumed now).transport.write _).accepted
            = _
          rw [hprogress, htransport, haccount.accepted]
        · rw [hwaits]
          exact ⟨haccount.blocked hflushed, haccount.leaves⟩
      · rw [hpoll] at htaken
        cases htaken

/-- In every run, what was written begins the stream of all that was queued, and as long
as the connection is up, what waits is the rest of it.  A round over an open transport
after which the connection is up writes as long as the transport lets it: something still
waits exactly if the last attempt was put off. -/
theorem first_in_first_out (transport : Transport) (config : Config) (now : Nat)
    (moves : List (Move X Y)) :
    let start : Connection X Y := new transport config now
    let final := start.play moves
    let stream := transport.written ++ (start.queued moves).flatten
    (final.isDown = false →
        final.transport.written ++ final.outbox.pending.flatten = stream) ∧
      final.transport.written <+: stream ∧
      ∀ time, final.isDown = false → final.transport.connected = true →
        (final.process time).2 = true →
        final.Flushes (final.attempts time) (final.process time).1 := by
  intro start final stream
  have hrun := play_emits start moves
  have hup : start.isDown = false := isDown_new transport config now
  have hstream : start.outgoing ++ (start.queued moves).flatten = stream :=
    congrArg (· ++ _) (List.append_nil _)
  rw [← hstream]
  refine ⟨fun hlive => (hrun.up hlive).2, hrun.written hup, ?_⟩
  intro time hlive hconnected hstill
  exact IsOpen.process_flushes ⟨hlive, hconnected⟩ hstill

/-- A handshake and a message are written over a transport that accepts a part, is
interrupted, accepts another part and then puts the connection off. -/
theorem first_in_first_out_of_parts :
    let start : Connection Empty Empty := new (.new true) .standard 0
    let moves : List (Move Empty Empty) :=
      [.call 0 (.handshake "0000000000000000000000000000000000000000" (List.replicate 20 7)),
        .call 0 (.send .unchoke),
        .stir (.planWrites [.accept 40, .fault .interrupted, .accept 30, .fault .wouldBlock])]
    let final := start.play moves
    final.isDown = false ∧ (final.process 0).2 = true ∧ (final.attempts 0).length = 4 ∧
      (final.process 0).1.outbox.pending ≠ [] ∧
      final.Flushes (final.attempts 0) (final.process 0).1 := by
  intro start moves final
  have hup : final.isDown = false := by decide +kernel
  have hstill : (final.process 0).2 = true := by decide +kernel
  obtain ⟨-, -, hflushes⟩ := first_in_first_out (X := Empty) (Y := Empty) (.new true) .standard 0
    moves
  exact ⟨hup, hstill, by decide +kernel, by decide +kernel,
    hflushes 0 hup (by decide +kernel) hstill⟩

end Connection
end PeerLink
