import Mathlib.Data.List.Induction
import PeerLink.Proofs.Connection.Standing

/-!
# The phase and the handshakes

The phase of a connection says which handshakes are through, and it never moves back,
unless the transport is opened behind our handshake.  Such a call of `connect` sets the
phase back to "connected" while our handshake is sent, and no other call does.
-/

namespace PeerLink

theorem Phase.rank_le_disconnected (phase : Phase) : phase.rank ≤ Phase.rank .disconnected := by
  cases phase <;> decide

theorem Phase.rank_le_established {phase : Phase} (h : phase ≠ .disconnected) :
    phase.rank ≤ Phase.rank .established := by
  cases phase with
  | disconnected => exact absurd rfl h
  | _ => decide

namespace Standing

/-- Until the connection is torn down, its phase says which handshakes are through. -/
structure IsCoherent (standing : Standing) : Prop where
  established_iff : standing.phase ≠ .disconnected →
    (standing.phase = .established ↔
      standing.handshakeSent = true ∧ standing.handshakeReceived = true)
  handshakeSent_iff : standing.phase ≠ .disconnected →
    (standing.phase = .handshakeSent ↔
      standing.handshakeSent = true ∧ standing.handshakeReceived = false)
  unsent : standing.phase = .connecting ∨ standing.phase = .connected →
    standing.handshakeSent = false

theorem isCoherent_of_disconnected {standing : Standing} (h : standing.phase = .disconnected) :
    standing.IsCoherent := by
  constructor
  · intro hup
    exact absurd h hup
  · intro hup
    exact absurd h hup
  · rintro (hphase | hphase)
    · rw [h] at hphase
      cases hphase
    · rw [h] at hphase
      cases hphase

theorem isCoherent_of_unsent {standing : Standing} (hsent : standing.handshakeSent = false)
    (hphase : standing.phase = .connecting ∨ standing.phase = .connected) :
    standing.IsCoherent := by
  constructor
  · intro _
    rcases hphase with h | h
    · simp [h, hsent]
    · simp [h, hsent]
  · intro _
    rcases hphase with h | h
    · simp [h, hsent]
    · simp [h, hsent]
  · intro _
    exact hsent

theorem IsCoherent.phase_of_unsent {standing : Standing} (h : standing.IsCoherent)
    (hup : standing.phase ≠ .disconnected) (hsent : standing.handshakeSent = false) :
    standing.phase = .connecting ∨ standing.phase = .connected := by
  have hestablished : standing.phase ≠ .established := by
    rw [Ne, h.established_iff hup, hsent]
    simp
  have hgreeting : standing.phase ≠ .handshakeSent := by
    rw [Ne, h.handshakeSent_iff hup, hsent]
    simp
  cases hphase : standing.phase with
  | connecting => exact .inl rfl
  | connected => exact .inr rfl
  | handshakeSent => exact absurd hphase hgreeting
  | established => exact absurd hphase hestablished
  | disconnected => exact absurd hphase hup

theorem IsCoherent.rank_of_unsent {standing : Standing} (h : standing.IsCoherent)
    (hup : standing.phase ≠ .disconnected) (hsent : standing.handshakeSent = false) :
    standing.phase.rank ≤ Phase.rank .connected := by
  rcases h.phase_of_unsent hup hsent with hphase | hphase
  · rw [hphase]
    decide
  · exact Nat.le_of_eq (congrArg Phase.rank hphase)

theorem advancePhase_of_sent (standing : Standing) (hup : standing.phase ≠ .disconnected)
    (hsent : standing.handshakeSent = true) :
    standing.advancePhase =
      { standing with
        phase := if standing.handshakeReceived then .established else .handshakeSent } := by
  rw [advancePhase, if_neg hup, if_pos hsent]

theorem advancePhase_of_unsent {standing : Standing} (hsent : standing.handshakeSent = false) :
    standing.advancePhase = standing := by
  rw [advancePhase, hsent]
  simp

theorem isCoherent_advancePhase_of_sent {standing : Standing}
    (hup : standing.phase ≠ .disconnected) (hsent : standing.handshakeSent = true) :
    standing.advancePhase.IsCoherent := by
  rw [advancePhase_of_sent standing hup hsent]
  cases hreceived : standing.handshakeReceived with
  | true => constructor <;> simp [hsent]
  | false => constructor <;> simp [hsent]

/-- From a coherent standing, `later` is coherent too, and its phase is not an earlier one. -/
def Advances (standing later : Standing) : Prop :=
  standing.IsCoherent → later.IsCoherent ∧ standing.phase.rank ≤ later.phase.rank

theorem Advances.refl (standing : Standing) : standing.Advances standing := by
  intro h
  exact ⟨h, Nat.le_refl _⟩

theorem Advances.trans {first second third : Standing} (h : first.Advances second)
    (hlater : second.Advances third) : first.Advances third := by
  intro hfirst
  obtain ⟨hsecond, hle⟩ := h hfirst
  obtain ⟨hthird, hle'⟩ := hlater hsecond
  exact ⟨hthird, Nat.le_trans hle hle'⟩

theorem advances_closed (standing : Standing) :
    standing.Advances { standing with phase := .disconnected } := by
  intro _
  exact ⟨isCoherent_of_disconnected rfl, Phase.rank_le_disconnected standing.phase⟩

theorem advances_opened {standing : Standing} (hup : standing.phase ≠ .disconnected)
    (hsent : standing.handshakeSent = false) :
    standing.Advances { standing with phase := .connected } := by
  intro h
  exact ⟨isCoherent_of_unsent hsent (.inr rfl), h.rank_of_unsent hup hsent⟩

theorem advances_greet {standing : Standing} (hup : standing.phase ≠ .disconnected)
    (hsent : standing.handshakeSent = false) (handshake : Handshake) :
    standing.Advances (standing.greet handshake) := by
  intro h
  let greeted : Standing := { standing with
    localPeerId := some handshake.peerId
    infoHash := some handshake.infoHash
    reserved := handshake.reserved
    handshakeSent := true }
  have hlater : Phase.rank .connected ≤ greeted.advancePhase.phase.rank := by
    rw [advancePhase_of_sent greeted hup rfl]
    dsimp only
    split <;> decide
  have hcoherent : greeted.advancePhase.IsCoherent := isCoherent_advancePhase_of_sent hup rfl
  exact ⟨hcoherent, Nat.le_trans (h.rank_of_unsent hup hsent) hlater⟩

theorem advances_accept {standing : Standing} (hup : standing.phase ≠ .disconnected)
    (handshake : Handshake) : standing.Advances (standing.accept handshake) := by
  intro h
  let accepted : Standing := { standing with
    remotePeerId := some handshake.peerId
    remoteReserved := some handshake.reserved
    handshakeReceived := true }
  by_cases hsent : standing.handshakeSent = true
  · have hphase : accepted.advancePhase.phase = .established := by
      rw [advancePhase_of_sent accepted hup hsent]
      rfl
    have hcoherent : accepted.advancePhase.IsCoherent := isCoherent_advancePhase_of_sent hup hsent
    refine ⟨hcoherent, ?_⟩
    change standing.phase.rank ≤ accepted.advancePhase.phase.rank
    rw [hphase]
    exact Phase.rank_le_established hup
  · have hsent : standing.handshakeSent = false := by simpa using hsent
    have hsame : accepted.advancePhase = accepted := advancePhase_of_unsent hsent
    have hcoherent : accepted.IsCoherent :=
      isCoherent_of_unsent hsent (h.phase_of_unsent hup hsent)
    refine ⟨?_, ?_⟩
    · change accepted.advancePhase.IsCoherent
      rw [hsame]
      exact hcoherent
    · exact Nat.le_of_eq (congrArg (·.phase.rank) hsame.symm)

end Standing

namespace Connection

variable {X Y : Type} [Capability X] [SubProtocol Y] {c d : Connection X Y}

/-! ## Calls that keep the phase in order -/

theorem teardown_advances (c : Connection X Y) :
    c.state.standing.Advances c.teardown.state.standing := by
  by_cases hdown : c.isDown = true
  · rw [teardown, if_pos hdown]
    exact .refl _
  · rw [teardown, if_neg hdown]
    exact Standing.advances_closed _

theorem PollStep.advances (h : PollStep c d) : c.state.standing.Advances d.state.standing := by
  cases h with
  | keepAlive now hup => rw [standing_keepAlive]; exact .refl _
  | receive hup => exact .refl _
  | rebuffer buffer hup => exact .refl _
  | acceptHandshake handshake hup hreceived =>
    rcases standing_acceptHandshake c handshake with ⟨-, hsame⟩ | ⟨-, hstanding⟩
    · rw [hsame]
      exact .refl _
    · rw [hstanding]
      exact Standing.advances_accept (isDown_eq_false_iff.mp hup) handshake
  | dispatch frame hup hreceived => rw [standing_dispatch]; exact .refl _
  | flush hup => exact .refl _
  | noteIdle received hup => rw [standing_noteIdle]; exact .refl _
  | teardown hup => exact teardown_advances c

theorem PollSteps.advances (h : PollSteps c d) : c.state.standing.Advances d.state.standing := by
  induction h with
  | refl => exact .refl _
  | tail _ hstep ih => exact ih.trans hstep.advances

theorem introduced_advances (hup : c.isDown = false)
    (hsent : c.state.handshakeSent = false) (infoHash : Digest) (peerId : PeerId) :
    c.state.standing.Advances (c.introduced infoHash peerId).state.standing := by
  change c.state.standing.Advances (c.greet infoHash peerId).state.standing
  rw [standing_greet]
  exact Standing.advances_greet (isDown_eq_false_iff.mp hup) hsent _

theorem HandshakeOutcome.advances (h : HandshakeOutcome c d) :
    c.state.standing.Advances d.state.standing := by
  cases h with
  | refused => exact .refl _
  | mismatch hup => exact teardown_advances c
  | introduced digest id hup hsent => exact introduced_advances hup hsent digest id
  | failed digest id hup hsent =>
    exact (introduced_advances hup hsent digest id).trans (teardown_advances _)

omit [Capability X] [SubProtocol Y] in
theorem connect_advances (h : c.connect.2 = .ok () → c.state.handshakeSent = false) :
    c.state.standing.Advances c.connect.1.state.standing := by
  rw [connect] at h ⊢
  split
  · exact .refl _
  · next hup =>
    rw [if_neg hup] at h
    have hup : c.isDown = false := by simpa using hup
    split
    · exact .refl _
    · next htransport =>
      rw [htransport] at h
      exact Standing.advances_opened (isDown_eq_false_iff.mp hup) (h rfl)

theorem sends_advances (now : Nat) (call : Call X Y) (h : call.Sends) :
    c.state.standing.Advances (c.perform now call).1.state.standing := by
  rw [(perform_sendSteps c now call h).standing_eq]
  exact .refl _

/-- The move opens the transport behind our handshake. -/
def OpensLate (c : Connection X Y) (m : Move X Y) : Prop :=
  (∃ now, m = .call now .connect) ∧ c.connect.2 = .ok () ∧ c.state.handshakeSent = true

theorem move_advances {m : Move X Y} (hm : ¬ c.OpensLate m) :
    c.state.standing.Advances (c.move m).state.standing := by
  cases m with
  | stir stimulus => exact .refl _
  | call now call =>
    cases call with
    | connect =>
      apply connect_advances
      intro hok
      by_contra hsent
      exact hm ⟨⟨now, rfl⟩, hok, by simpa using hsent⟩
    | handshake infoHash peerId => exact (handshake_outcome c infoHash peerId).advances
    | process => exact (process_pollSteps c now).advances
    | disconnect => exact teardown_advances c
    | addModule m =>
      change c.state.standing.Advances (c.addModule m).1.state.standing
      rw [addModule]
      split <;> exact .refl _
    | setPieceCount count => exact .refl _
    | nextEvent => exact .refl _
    | drainEvents => exact .refl _
    | send message => exact sends_advances now (.send message) trivial
    | sendBitfield pieces disguised =>
      exact sends_advances now (.sendBitfield pieces disguised) trivial
    | sendExtended name payload =>
      exact sends_advances now (.sendExtended name payload) trivial
    | sendFromRegistry name payload =>
      exact sends_advances now (.sendFromRegistry name payload) trivial
    | sendPeerExchange message =>
      exact sends_advances now (.sendPeerExchange message) trivial
    | grantAllowedFast host pieceCount =>
      exact sends_advances now (.grantAllowedFast host pieceCount) trivial

theorem OpensLate.not_isCoherent {m : Move X Y} (h : c.OpensLate m) :
    ¬ (c.move m).state.standing.IsCoherent := by
  obtain ⟨⟨now, rfl⟩, hok, hsent⟩ := h
  intro hcoherent
  change c.connect.1.state.standing.IsCoherent at hcoherent
  rw [connect] at hok hcoherent
  split at hok
  · cases hok
  · next hup =>
    rw [if_neg hup] at hcoherent
    split at hok
    · cases hok
    · next transport htransport =>
      rw [htransport] at hcoherent
      have hunsent : c.state.handshakeSent = false := hcoherent.unsent (.inr rfl)
      rw [hsent] at hunsent
      cases hunsent

/-! ## Runs -/

/-- All along the run the phase says which handshakes are through, and no move sets it
back. -/
structure KeepsOrder (start : Connection X Y) (moves : List (Move X Y)) : Prop where
  coherent : ∀ before, before <+: moves → (start.play before).state.standing.IsCoherent
  forward : ∀ before m, before ++ [m] <+: moves →
    (start.play before).state.phase.rank ≤ (start.play (before ++ [m])).state.phase.rank

omit [Capability X] [SubProtocol Y] in
theorem isCoherent_new (transport : Transport) (config : Config) (now : Nat) :
    (new transport config now : Connection X Y).state.standing.IsCoherent := by
  apply Standing.isCoherent_of_unsent rfl
  change (if transport.connected then Phase.connected else .connecting) = _ ∨
    (if transport.connected then Phase.connected else .connecting) = _
  split
  · exact .inr rfl
  · exact .inl rfl

theorem isCoherent_play {start : Connection X Y} (hstart : start.state.standing.IsCoherent)
    {moves : List (Move X Y)}
    (h : ∀ before m, before ++ [m] <+: moves → ¬ (start.play before).OpensLate m) :
    (start.play moves).state.standing.IsCoherent := by
  induction moves using List.reverseRecOn with
  | nil => exact hstart
  | append_singleton moves m ih =>
    have hlate := h moves m (List.prefix_refl _)
    have hearlier := ih fun before m' hbefore =>
      h before m' (hbefore.trans (List.prefix_append moves [m]))
    rw [play_concat]
    exact (move_advances hlate hearlier).1

/-- The phase stays in order with the handshakes if and only if the transport is never
opened behind our handshake. -/
theorem keepsOrder_iff_not_opensLate (transport : Transport) (config : Config) (now : Nat)
    (moves : List (Move X Y)) :
    let start : Connection X Y := new transport config now
    KeepsOrder start moves ↔
      ∀ before m, before ++ [m] <+: moves → ¬ (start.play before).OpensLate m := by
  intro start
  have hstart : start.state.standing.IsCoherent := isCoherent_new transport config now
  constructor
  · intro h before m hbefore hlate
    have hcoherent := h.coherent _ hbefore
    rw [play_concat] at hcoherent
    exact hlate.not_isCoherent hcoherent
  · intro h
    have hcoherent : ∀ before, before <+: moves →
        (start.play before).state.standing.IsCoherent := by
      intro before hbefore
      exact isCoherent_play hstart fun first m hfirst => h first m (hfirst.trans hbefore)
    refine ⟨hcoherent, ?_⟩
    intro before m hbefore
    rw [play_concat]
    have hearlier := hcoherent before ((List.prefix_append before [m]).trans hbefore)
    exact (move_advances (h before m hbefore) hearlier).2

/-- Opening the transport behind our handshake sets the phase back. -/
theorem not_keepsOrder_of_connect :
    ¬ KeepsOrder (new (.new false) .standard 0 : Connection Empty Empty)
      [.call 0 (.handshake "0000000000000000000000000000000000000000" (List.replicate 20 7)),
        .call 0 .connect] := by
  intro h
  have hforward := h.forward
    [.call 0 (.handshake "0000000000000000000000000000000000000000" (List.replicate 20 7))]
    (.call 0 .connect) (List.prefix_refl _)
  revert hforward
  decide +kernel

end Connection
end PeerLink
