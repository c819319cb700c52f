import Mathlib.Data.List.Induction
import PeerLink.Proofs.Connection.Step

/-!
# What steps do to the standing of a connection

Of all steps, only opening the transport, accepting the peer's handshake and
the teardown touch the part of the record that handshakes decide.  Whatever
holds of connections by their standing is checked against these three, and
against greeting.
-/

namespace PeerLink
namespace Connection

variable {X Y : Type}

/-- What a step can do to the standing of a connection. -/
inductive StandingEffect (c d : Connection X Y) : Prop where
  | same (h : d.state.standing = c.state.standing)
  | opened (hup : c.isDown = false)
      (h : d.state.standing = { c.state.standing with phase := .connected })
  | accepted (handshake : Handshake) (hup : c.isDown = false)
      (hreceived : c.state.handshakeReceived = false)
      (h : d.state.standing = c.state.standing.accept handshake)
  | closed (hup : c.isDown = false)
      (h : d.state.standing = { c.state.standing with phase := .disconnected })

variable {c d : Connection X Y}

theorem StandingEffect.isSound (h : StandingEffect c d) (hc : c.state.standing.IsSound) :
    d.state.standing.IsSound := by
  cases h with
  | same h => rw [h]; exact hc
  | opened hup h => rw [h]; intro hphase; cases hphase
  | accepted handshake hup hreceived h =>
    rw [h, Standing.accept]
    apply Standing.IsSound.advancePhase
    intro _
    rfl
  | closed hup h => rw [h]; intro hphase; cases hphase

theorem SendStep.standing_eq (h : SendStep c d) : d.state.standing = c.state.standing := by
  cases h with
  | pick picker => rfl
  | send now message hup => exact standing_send c now message
  | sendFromRegistry hsent =>
    obtain ⟨reply, hused⟩ := exists_settle_of_sendFromRegistry? hsent
    exact hused ▸ rfl
  | sendPeerExchange hsent =>
    obtain ⟨reply, hused⟩ := exists_settle_of_sendPeerExchange? hsent
    exact hused ▸ rfl
  | grantAllowedFast hgranted =>
    obtain ⟨reply, hused⟩ := exists_settle_of_grantAllowedFast? hgranted
    exact hused ▸ rfl

theorem SendSteps.standing_eq (h : SendSteps c d) : d.state.standing = c.state.standing := by
  induction h with
  | refl => rfl
  | tail _ hstep ih => exact hstep.standing_eq.trans ih

variable [Capability X] [SubProtocol Y]

theorem teardown_standingEffect (hup : c.isDown = false) : StandingEffect c c.teardown := by
  refine .closed hup ?_
  rw [teardown, hup]
  rfl

theorem OwnerStep.standingEffect (h : OwnerStep c d) : StandingEffect c d := by
  cases h with
  | useTransport transport hwritten => exact .same rfl
  | opened hup => exact .opened hup rfl
  | addModule m hsent => exact .same rfl
  | setPieceCount count => exact .same rfl
  | takeEvents events hevents => exact .same rfl
  | pick picker => exact .same rfl
  | send now message hup => exact .same (SendStep.send now message hup).standing_eq
  | sendFromRegistry hsent => exact .same (SendStep.sendFromRegistry hsent).standing_eq
  | sendPeerExchange hsent => exact .same (SendStep.sendPeerExchange hsent).standing_eq
  | grantAllowedFast hgranted => exact .same (SendStep.grantAllowedFast hgranted).standing_eq
  | introduce handshake hup hsent => exact .same rfl
  | teardown hup => exact teardown_standingEffect hup

theorem PollStep.standingEffect (h : PollStep c d) : StandingEffect c d := by
  cases h with
  | keepAlive now hup => exact .same (standing_keepAlive c now)
  | receive hup => exact .same rfl
  | rebuffer buffer hup => exact .same rfl
  | acceptHandshake handshake hup hreceived =>
    rcases standing_acceptHandshake c handshake with ⟨-, hsame⟩ | ⟨-, hstanding⟩
    · exact .same (congrArg (·.state.standing) hsame)
    · exact .accepted handshake hup hreceived hstanding
  | dispatch frame hup hreceived => exact .same (standing_dispatch c frame)
  | flush hup => exact .same rfl
  | noteIdle received hup => exact .same (standing_noteIdle c received)
  | teardown hup => exact teardown_standingEffect hup

theorem Step.standingEffect (h : Step c d) : StandingEffect c d := by
  rcases h with howner | hpoll
  · exact howner.standingEffect
  · exact hpoll.standingEffect

/-! ## Consequences -/

/-- No step sends our handshake or changes it. -/
theorem Steps.keeps_greeting (h : Steps c d) :
    d.state.handshakeSent = c.state.handshakeSent ∧
      d.state.standing.ownHandshake? = c.state.standing.ownHandshake? := by
  induction h with
  | refl => exact ⟨rfl, rfl⟩
  | @tail d e hsteps hstep ih =>
    suffices hkeeps : e.state.standing.handshakeSent = d.state.standing.handshakeSent ∧
        e.state.standing.ownHandshake? = d.state.standing.ownHandshake? from
      ⟨hkeeps.1.trans ih.1, hkeeps.2.trans ih.2⟩
    cases hstep.standingEffect with
    | same h => rw [h]; exact ⟨rfl, rfl⟩
    | opened hup h => rw [h]; exact ⟨rfl, rfl⟩
    | accepted handshake hup hreceived h =>
      rw [h, Standing.accept]
      exact ⟨Standing.handshakeSent_advancePhase _, Standing.ownHandshake?_advancePhase _⟩
    | closed hup h => rw [h]; exact ⟨rfl, rfl⟩

theorem Steps.isSound (h : Steps c d) (hc : c.state.standing.IsSound) :
    d.state.standing.IsSound := by
  induction h with
  | refl => exact hc
  | tail _ hstep ih => exact hstep.standingEffect.isSound ih

/-- In no run is a connection established without the peer's handshake. -/
theorem play_isSound (hc : c.state.standing.IsSound) (moves : List (Move X Y)) :
    (c.play moves).state.standing.IsSound := by
  induction moves using List.reverseRecOn with
  | nil => exact hc
  | append_singleton moves m ih =>
    rw [play_concat]
    rcases move_steps (c.play moves) m with hsteps | ⟨infoHash, peerId, -, -, hsteps⟩
    · exact hsteps.isSound ih
    · refine hsteps.isSound ?_
      rw [standing_greet, Standing.greet]
      exact Standing.IsSound.advancePhase ih

/-! ## The info hash -/

omit [Capability X] [SubProtocol Y] in
/-- The info hash of `c`, if it is known, is that of `d`. -/
def KeepsInfoHash (c d : Connection X Y) : Prop :=
  ∀ digest, c.state.infoHash = some digest → d.state.infoHash = some digest

theorem Steps.infoHash_eq (h : Steps c d) : d.state.infoHash = c.state.infoHash := by
  induction h with
  | refl => rfl
  | @tail d e _ hstep ih =>
    refine Eq.trans ?_ ih
    cases hstep.standingEffect with
    | same h => exact congrArg Standing.infoHash h
    | opened hup h => exact congrArg Standing.infoHash h
    | accepted handshake hup hreceived h =>
      rw [Standing.accept, Standing.advancePhase_eq] at h
      exact congrArg Standing.infoHash h
    | closed hup h => exact congrArg Standing.infoHash h

theorem Steps.keepsInfoHash (h : Steps c d) : KeepsInfoHash c d := by
  intro digest hdigest
  rw [h.infoHash_eq]
  exact hdigest

/-- No info hash is known before our handshake is sent. -/
def AwaitsInfoHash (c : Connection X Y) : Prop :=
  c.state.handshakeSent = false → c.state.infoHash = none

/-- No move changes the info hash once it is known. -/
theorem AwaitsInfoHash.move (h : c.AwaitsInfoHash) (m : Move X Y) :
    KeepsInfoHash c (c.move m) ∧ (c.move m).AwaitsInfoHash := by
  rcases move_steps c m with hsteps | ⟨infoHash, peerId, -, hsent, hsteps⟩
  · refine ⟨hsteps.keepsInfoHash, ?_⟩
    intro hunsent
    rw [hsteps.keeps_greeting.1] at hunsent
    rw [hsteps.infoHash_eq]
    exact h hunsent
  · constructor
    · intro digest hdigest
      rw [h hsent] at hdigest
      cases hdigest
    · intro hunsent
      have hgreeted : (c.greet infoHash peerId).state.handshakeSent = true :=
        (congrArg Standing.handshakeSent (standing_greet c infoHash peerId)).trans
          (Standing.handshakeSent_advancePhase _)
      rw [hsteps.keeps_greeting.1, hgreeted] at hunsent
      cases hunsent

theorem AwaitsInfoHash.play (h : c.AwaitsInfoHash) (moves : List (Move X Y)) :
    (c.play moves).AwaitsInfoHash := by
  induction moves using List.reverseRecOn with
  | nil => exact h
  | append_singleton moves m ih =>
    rw [play_concat]
    exact (ih.move m).2

end Connection
end PeerLink
