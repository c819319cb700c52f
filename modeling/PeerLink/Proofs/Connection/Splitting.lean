import PeerLink.Proofs.Connection.Close
import PeerLink.Proofs.Connection.Reliable
import PeerLink.Proofs.Module.Refusal

/-!
# How bytes are split makes no difference

What a connection makes of the bytes of its peer depends on the bytes alone, and not on
the reads and the rounds of work that they arrive in.  If one of them cannot be read or
is refused, what comes in front of it is told, the connection goes down, and nothing
behind it is looked at.
-/

namespace PeerLink

theorem Session.take_unheardUnless {X Y : Type} [Capability X] [SubProtocol Y]
    (hX : Capability.RefusesUnheard X) (hY : SubProtocol.RefusesUnheard Y)
    (session : Session X Y) (item : Item) : (session.take item).UnheardUnless () := by
  cases item with
  | handshake handshake =>
    change (session.accept handshake).UnheardUnless ()
    rw [accept]
    split
    · exact .inr rfl
    · exact .inl rfl
  | frame frame =>
    change (session.hear frame).UnheardUnless ()
    cases frame with
    | keepAlive => exact .inl rfl
    | message command length payload =>
      have hoffer := (AnyModule.refusesUnheard hX hY).offer session.state command payload
        session.modules
      rw [hear]
      split
      · exact .inl rfl
      · split
        · exact .inl rfl
        · exact .inr rfl
        · rw [offer]
          split
          · next failure hfailure => exact .inr (hoffer.of_ne (by simp [hfailure]))
          · exact .inl rfl
          · exact .inl rfl

theorem Session.output_take_of_error {X Y : Type} [Capability X] [SubProtocol Y]
    (hX : Capability.RefusesUnheard X) (hY : SubProtocol.RefusesUnheard Y)
    (session : Session X Y) {item : Item} {failure : Failure}
    (h : (session.take item).result = .error failure) : (session.take item).output.IsUnheard :=
  (session.take_unheardUnless hX hY item).of_ne (by simp [h])

namespace Listener

variable {X Y : Type} [Capability X] [SubProtocol Y]

/-- Items are taken, which raises these events, up to one that cannot be read or is
refused.  That leaves the session as it is given last. -/
inductive Offends : Listener X Y → List Event → Session X Y → Prop where
  | unreadable {listener : Listener X Y} {failure : Failure}
      (h : listener.nextItem = .error failure) : Offends listener [] listener.session
  | refused {listener : Listener X Y} {item : Item} {rest : Reassembly} {failure : Failure}
      (h : listener.nextItem = .ok (some (item, rest)))
      (hrefused : (listener.session.take item).result = .error failure) :
    Offends listener [] (listener.session.take item).next
  | behind {listener : Listener X Y} {item : Item} {rest : Reassembly} {events : List Event}
      {last : Session X Y} (h : listener.nextItem = .ok (some (item, rest)))
      (htaken : (listener.session.take item).result = .ok ())
      (hlater : Offends ⟨(listener.session.take item).next, rest⟩ events last) :
    Offends listener ((listener.session.take item).output.events ++ events) last

/-- Listening fails exactly if something offends, and tells what comes in front of it. -/
theorem offends_iff (hX : Capability.RefusesUnheard X) (hY : SubProtocol.RefusesUnheard Y)
    {listener : Listener X Y} {events : List Event} {last : Session X Y} :
    listener.Offends events last ↔ listener.listen.result ≠ .ok () ∧
      listener.listen.output.events = events ∧ listener.listen.next.session = last := by
  constructor
  · intro h
    induction h with
    | unreadable h =>
      rw [listen_of_error h]
      refine ⟨?_, rfl, rfl⟩
      intro hok
      cases hok
    | @refused listener item rest failure h hrefused =>
      rw [listen_of_refused h hrefused]
      refine ⟨?_, ?_, rfl⟩
      · intro hok
        cases hok
      · exact listener.session.output_take_of_error hX hY hrefused
    | behind h htaken _ ih =>
      obtain ⟨hresult, rfl, hlast⟩ := ih
      rw [listen_of_taken h htaken]
      exact ⟨hresult, rfl, hlast⟩
  · rintro ⟨hresult, rfl, rfl⟩
    induction listener using listen.induct with
    | case1 listener failure hnext =>
      rw [listen_of_error hnext]
      exact .unreadable hnext
    | case2 listener hnext =>
      rw [listen_of_none hnext] at hresult
      exact absurd rfl hresult
    | case3 listener item rest hnext hlt first failure hrefused =>
      have hevents : (listener.session.take item).output.events = [] :=
        listener.session.output_take_of_error hX hY hrefused
      rw [listen_of_refused hnext hrefused]
      change Offends listener (listener.session.take item).output.events _
      rw [hevents]
      exact .refused hnext hrefused
    | case4 listener item rest hnext hlt first htaken ih =>
      rw [listen_of_taken hnext htaken] at hresult ⊢
      exact .behind hnext htaken (ih hresult)

end Listener

namespace Connection

variable {X Y : Type}

/-- What the bytes of the peer can change in a connection. -/
structure Heard (X Y : Type) where
  state : ConnectionState
  modules : List (AnyModule X Y)
  news : List Event

def heard (c : Connection X Y) : Heard X Y := ⟨c.state, c.modules, Event.news c.outbox.events⟩

variable [Capability X] [SubProtocol Y] {c d e : Connection X Y} {bytes : Bytes}

theorem GoesOn.heard_eq (h : GoesOn c bytes d) (h' : GoesOn c bytes e) : d.heard = e.heard := by
  have hsession : d.session = e.session :=
    congrArg Listener.session (h.listener.trans h'.listener.symm)
  have hstate : d.state = e.state := congrArg Session.state hsession
  have hmodules : d.modules = e.modules := congrArg Session.modules hsession
  rw [heard, heard, hstate, hmodules, h.news, h'.news]

theorem BreaksOff.heard_eq (h : BreaksOff c bytes d) (h' : BreaksOff c bytes e) :
    d.heard = e.heard := by
  rw [heard, heard, h.state, h'.state, h.modules, h'.modules, h.news, h'.news]

/-! ## Deliveries -/

theorem GoesOn.stir (h : GoesOn c bytes d) (stimulus : Transport.Stimulus) :
    GoesOn c bytes (d.stir stimulus) := ⟨h.result, h.listener, h.news⟩

theorem BreaksOff.stir (h : BreaksOff c bytes d) (stimulus : Transport.Stimulus) :
    BreaksOff c bytes (d.stir stimulus) := ⟨h.refused, h.state, h.modules, h.news⟩

theorem Digests.move (h : Digests c bytes d) (hframed : d.IsFramed) {m : Move X Y}
    (hm : m.Delivers) : Digests c (bytes ++ m.incoming) (d.move m) := by
  cases m with
  | stir stimulus =>
    cases stimulus with
    | feed answers =>
      cases h with
      | goesOn read hread hup hreliable hgoes =>
        refine .goesOn read ?_ hup ?_ (hgoes.stir _)
        · change read ++ Transport.unread (d.transport.reads ++ answers) = _
          rw [← hread, Transport.unread, List.flatMap_append, ← List.append_assoc]
          rfl
        · refine ⟨hreliable.connected, ?_, hreliable.writes⟩
          exact List.forall_mem_append.mpr ⟨hreliable.reads, hm⟩
      | breaksOff read rest hread hdown hbreaks =>
        refine .breaksOff read (rest ++ Transport.unread answers) ?_ hdown (hbreaks.stir _)
        rw [← hread, List.append_assoc]
        rfl
    | planWrites answers =>
      change Digests c (bytes ++ []) _
      rw [List.append_nil]
      cases h with
      | goesOn read hread hup hreliable hgoes =>
        refine .goesOn read hread hup ?_ (hgoes.stir _)
        refine ⟨hreliable.connected, hreliable.reads, ?_⟩
        exact List.forall_mem_append.mpr ⟨hreliable.writes, hm⟩
      | breaksOff read rest hread hdown hbreaks =>
        exact .breaksOff read rest hread hdown (hbreaks.stir _)
    | failConnect fault => exact hm.elim
    | setConnected connected => exact hm.elim
  | call now call =>
    cases call with
    | process =>
      change Digests c (bytes ++ []) (d.process now).1
      rw [List.append_nil]
      cases h with
      | goesOn read hread hup hreliable hgoes =>
        cases process_digests hup hframed hreliable now with
        | goesOn more hmore hup' hreliable' hlater =>
          refine .goesOn (read ++ more) ?_ hup' hreliable' (hgoes.trans hlater)
          rw [← hread, ← hmore, List.append_assoc]
        | breaksOff more rest hmore hdown hlater =>
          refine .breaksOff (read ++ more) rest ?_ hdown (hgoes.breaksOff hlater)
          rw [← hread, ← hmore, List.append_assoc]
      | breaksOff read rest hread hdown hbreaks =>
        -- A connection that is down does no more work, whatever is left to read.
        rw [process, if_pos hdown]
        exact .breaksOff read rest hread hdown hbreaks
    | _ => exact hm.elim

theorem Digests.play (hwaits : c.listener.nextItem = .ok none) (hup : c.isDown = false)
    (hframed : c.IsFramed) (hreliable : c.transport.IsReliable) {moves : List (Move X Y)}
    (hmoves : ∀ m ∈ moves, m.Delivers) : Digests c (c.incoming moves) (c.play moves) := by
  -- From the right: a move looks at what the moves before it left unread.
  induction moves using List.reverseRecOn with
  | nil =>
    refine .goesOn [] ?_ hup hreliable (.nil hwaits)
    exact (List.append_nil _).symm
  | append_singleton moves m ih =>
    obtain ⟨hearlier, hm⟩ := List.forall_mem_append.mp hmoves
    rw [play_concat, incoming_concat]
    exact (ih hearlier).move (hframed.play moves) (List.forall_mem_singleton.mp hm)

/-- When all that came in was read, the connection went on behind all of it or broke
off. -/
theorem Digests.outcome (h : Digests c bytes d) (hread : d.HasRead) :
    d.isDown = false ∧ GoesOn c bytes d ∨ d.isDown = true ∧ BreaksOff c bytes d := by
  cases h with
  | goesOn read hbytes hup hreliable hgoes =>
    rcases hread with hdown | hnothing
    · simp [hup] at hdown
    · rw [hnothing, List.append_nil] at hbytes
      exact .inl ⟨hup, hbytes ▸ hgoes⟩
  | breaksOff read rest hbytes hdown hbreaks =>
    exact .inr ⟨hdown, hbytes ▸ hbreaks.append rest⟩

theorem IsReachable.isFramed (h : c.IsReachable) : c.IsFramed := by
  obtain ⟨transport, config, now, moves, rfl⟩ := h
  apply IsFramed.play
  exact List.forall_mem_nil _

/-- Two deliveries of the same bytes over a reliable transport leave the same record, the
same modules and the same news, once the connection has read everything or is down.  It
is down exactly if something in the bytes offends; then the news are those of what comes
in front of it, and the teardown. -/
theorem heard_eq_of_incoming_eq {c : Connection Empty Empty} (hreach : c.IsReachable)
    (hup : c.isDown = false) (hreliable : c.transport.IsReliable)
    {first second : List (Move Empty Empty)} (hfirst : ∀ m ∈ first, m.Delivers)
    (hsecond : ∀ m ∈ second, m.Delivers) (hsame : c.incoming first = c.incoming second)
    (hread : (c.play first).HasRead) (hread' : (c.play second).HasRead) :
    let listener := c.listener.feed (c.incoming first)
    (c.play first).heard = (c.play second).heard ∧
      ((c.play first).isDown = false → GoesOn c (c.incoming first) (c.play first)) ∧
      ((c.play first).isDown = true ↔ ∃ events last, listener.Offends events last) ∧
      ∀ events last, listener.Offends events last →
        (c.play first).heard =
          ⟨{ last.state with phase := .disconnected }, (Capability.teardownAll last.modules).1,
            Event.news c.outbox.events ++ Event.news events ++ [.droppedConnection]⟩ := by
  intro listener
  have houtcome : ∀ moves : List (Move Empty Empty), (∀ m ∈ moves, m.Delivers) →
      (c.play moves).HasRead →
      (c.play moves).isDown = false ∧ GoesOn c (c.incoming moves) (c.play moves) ∨
        (c.play moves).isDown = true ∧ BreaksOff c (c.incoming moves) (c.play moves) := by
    intro moves hmoves hend
    exact (Digests.play (hreach.isWaiting hup) hup hreach.isFramed hreliable hmoves).outcome hend
  -- The bytes alone decide which of the two it is, so both deliveries agree on that.
  have hother := houtcome second hsecond hread'
  rw [← hsame] at hother
  have hoffends : ∀ events last, listener.Offends events last ↔ _ := fun events last =>
    Listener.offends_iff Capability.refusesUnheard_empty SubProtocol.refusesUnheard_empty
  rcases houtcome first hfirst hread with ⟨hlive, hgoes⟩ | ⟨hdown, hbreaks⟩
  · have hnone : ∀ events last, ¬ listener.Offends events last :=
      fun events last h => ((hoffends events last).mp h).1 hgoes.result
    refine ⟨?_, fun _ => hgoes, ?_, fun events last h => absurd h (hnone events last)⟩
    · rcases hother with ⟨-, hgoes'⟩ | ⟨-, hbreaks'⟩
      · exact hgoes.heard_eq hgoes'
      · exact absurd hgoes.result hbreaks'.refused
    · simp [hlive, hnone]
  · refine ⟨?_, ?_, ?_, ?_⟩
    · rcases hother with ⟨-, hgoes'⟩ | ⟨-, hbreaks'⟩
      · exact absurd hgoes'.result hbreaks.refused
      · exact hbreaks.heard_eq hbreaks'
    · intro hlive
      simp [hdown] at hlive
    · refine iff_of_true hdown ⟨_, _, (hoffends _ _).mpr ⟨hbreaks.refused, rfl, rfl⟩⟩
    · intro events last h
      obtain ⟨-, rfl, rfl⟩ := (hoffends events last).mp h
      rw [heard, hbreaks.state, hbreaks.modules, hbreaks.news]

/-- A connection with all modules, right behind its handshake. -/
def equipped : Connection Empty Empty :=
  (new (.new true) .standard 0).play
    [.call 0 (.addModule (.fast .empty)),
      .call 0 (.addModule (.registry
        ⟨[⟨"ut_metadata", .metadata .fetching⟩, ⟨"ut_pex", .peerExchange .new⟩], [], none, none,
          none⟩)),
      .call 0 (.handshake "0000000000000000000000000000000000000000" (List.replicate 20 7))]

/-- A handshake, a piece, an extension handshake that makes the connection fetch
metadata, a piece whose payload is too short, and a last message. -/
def offensive : Bytes :=
  Handshake.encode ⟨.none, Vector.replicate 20 0, ⟨Vector.replicate 20 8⟩⟩ ++
    (Message.havePiece 5).encode ++
    (Message.extended 0 (Bytes.ofText "d1:md11:ut_metadatai3ee13:metadata_sizei1ee")).encode ++
    [0, 0, 0, 2, 4, 0] ++ Message.unchoke.encode

/-- The same bytes at once and in fragments: the cuts are in the handshake, in the length
of a frame and in a payload. -/
theorem heard_eq_of_incoming_eq_of_fragments :
    let whole : List (Move Empty Empty) := [.stir (.feed [.data offensive]), .call 1 .process]
    let fragments : List (Move Empty Empty) :=
      [.stir (.feed [.data (offensive.take 30), .fault .wouldBlock,
          .data ((offensive.drop 30).take 40), .fault .interrupted]),
        .stir (.planWrites [.accept 10, .fault .wouldBlock]), .call 1 .process, .call 2 .process,
        .stir (.feed [.data ((offensive.drop 70).take 20)]), .call 70000 .process,
        .stir (.feed [.data (offensive.drop 90)]), .call 70001 .process, .call 70002 .process]
    (equipped.play whole).heard = (equipped.play fragments).heard ∧
      (∃ events last, (equipped.listener.feed offensive).Offends events last) ∧
      (equipped.play fragments).heard.news =
        [.handshakeComplete ⟨Vector.replicate 20 8⟩ .none, .havePiece 5,
          .extendedHandshake ⟨[("ut_metadata", 3)], none, none, none, some 1, []⟩,
          .droppedConnection] := by
  intro whole fragments
  have hreach : equipped.IsReachable := ⟨_, _, _, _, rfl⟩
  have hup : equipped.isDown = false := by decide +kernel
  have hreliable : equipped.transport.IsReliable :=
    ⟨by decide +kernel, by decide +kernel, by decide +kernel⟩
  have hwhole : ∀ m ∈ whole, m.Delivers := by decide +kernel
  have hfragments : ∀ m ∈ fragments, m.Delivers := by decide +kernel
  have hsame : equipped.incoming whole = equipped.incoming fragments := by decide +kernel
  have hread : (equipped.play whole).HasRead := by decide +kernel
  have hread' : (equipped.play fragments).HasRead := by decide +kernel
  have hdown : (equipped.play whole).isDown = true := by decide +kernel
  have hnews : (equipped.play fragments).heard.news =
      [.handshakeComplete ⟨Vector.replicate 20 8⟩ .none, .havePiece 5,
        .extendedHandshake ⟨[("ut_metadata", 3)], none, none, none, some 1, []⟩,
        .droppedConnection] := by decide +kernel
  obtain ⟨hheard, -, hoffends, -⟩ := heard_eq_of_incoming_eq hreach hup hreliable hwhole
    hfragments hsame hread hread'
  have hincoming : equipped.incoming whole = offensive := by decide +kernel
  rw [hincoming] at hoffends
  exact ⟨hheard, hoffends.mp hdown, hnews⟩

end Connection
end PeerLink
