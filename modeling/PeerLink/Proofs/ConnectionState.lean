import PeerLink.ConnectionState

/-!
# What messages leave alone in the record of a connection

The record has a part that only connecting, the two handshakes and the teardown
decide.  No event of the peer, no message of ours and no number of pieces
touches this part.
-/

namespace PeerLink

/-- The part of the record that connecting, handshakes and the teardown decide. -/
structure Standing where
  phase : Phase
  localPeerId : Option PeerId
  remotePeerId : Option PeerId
  infoHash : Option Digest
  reserved : CapabilityBits
  remoteReserved : Option CapabilityBits
  handshakeSent : Bool
  handshakeReceived : Bool
  deriving DecidableEq, Repr

namespace Standing

/-- Our handshake, once both of its parts are known. -/
def ownHandshake? (standing : Standing) : Option Handshake :=
  match standing.infoHash, standing.localPeerId with
  | some infoHash, some peerId => some ⟨standing.reserved, infoHash, peerId⟩
  | _, _ => none

theorem infoHash_of_ownHandshake? {standing : Standing} {own : Handshake}
    (h : standing.ownHandshake? = some own) : standing.infoHash = some own.infoHash := by
  rw [ownHandshake?] at h
  split at h
  · next hinfoHash _ =>
    obtain rfl := Option.some.inj h
    exact hinfoHash
  · cases h

def advancePhase (standing : Standing) : Standing :=
  if standing.phase = .disconnected then standing
  else if standing.handshakeSent then
    { standing with phase := if standing.handshakeReceived then .established else .handshakeSent }
  else standing

theorem advancePhase_eq (standing : Standing) :
    standing.advancePhase = { standing with phase := standing.advancePhase.phase } := by
  rw [advancePhase]
  split
  · rfl
  · split <;> rfl

@[simp]
theorem handshakeSent_advancePhase (standing : Standing) :
    standing.advancePhase.handshakeSent = standing.handshakeSent := by
  rw [advancePhase_eq]

@[simp]
theorem handshakeReceived_advancePhase (standing : Standing) :
    standing.advancePhase.handshakeReceived = standing.handshakeReceived := by
  rw [advancePhase_eq]

@[simp]
theorem ownHandshake?_advancePhase (standing : Standing) :
    standing.advancePhase.ownHandshake? = standing.ownHandshake? := by
  rw [advancePhase_eq]
  rfl

theorem advancePhase_ne_disconnected {standing : Standing}
    (h : standing.phase ≠ .disconnected) : standing.advancePhase.phase ≠ .disconnected := by
  rw [advancePhase, if_neg h]
  split
  · dsimp only
    split <;> decide
  · exact h

/-- No connection is established without the peer's handshake. -/
def IsSound (standing : Standing) : Prop :=
  standing.phase = .established → standing.handshakeReceived = true

theorem IsSound.advancePhase {standing : Standing} (h : standing.IsSound) :
    standing.advancePhase.IsSound := by
  by_cases hreceived : standing.handshakeReceived = true
  · intro _
    rw [handshakeReceived_advancePhase]
    exact hreceived
  · have hphase : standing.phase ≠ .established := fun hphase => hreceived (h hphase)
    intro hadvanced
    rw [Standing.advancePhase] at hadvanced
    split at hadvanced
    · exact absurd hadvanced hphase
    · split at hadvanced
      · simp at hadvanced
      · exact absurd hadvanced hphase

/-- The standing once our handshake is queued. -/
def greet (standing : Standing) (handshake : Handshake) : Standing :=
  advancePhase { standing with
    localPeerId := some handshake.peerId
    infoHash := some handshake.infoHash
    reserved := handshake.reserved
    handshakeSent := true }

/-- The standing once the peer's handshake is accepted. -/
def accept (standing : Standing) (handshake : Handshake) : Standing :=
  advancePhase { standing with
    remotePeerId := some handshake.peerId
    remoteReserved := some handshake.reserved
    handshakeReceived := true }

end Standing

namespace ConnectionState

def standing (state : ConnectionState) : Standing where
  phase := state.phase
  localPeerId := state.localPeerId
  remotePeerId := state.remotePeerId
  infoHash := state.infoHash
  reserved := state.reserved
  remoteReserved := state.remoteReserved
  handshakeSent := state.handshakeSent
  handshakeReceived := state.handshakeReceived

@[simp]
theorem standing_observe (state : ConnectionState) (event : Event) :
    (state.observe event).standing = state.standing := by
  cases event <;> rfl

@[simp]
theorem standing_observeAll (state : ConnectionState) (events : List Event) :
    (state.observeAll events).standing = state.standing := by
  induction events generalizing state with
  | nil => rfl
  | cons event rest ih =>
    calc
      (state.observeAll (event :: rest)).standing = (state.observe event).standing := ih _
      _ = state.standing := standing_observe state event

@[simp]
theorem standing_noteSent (state : ConnectionState) (message : Message) :
    (state.noteSent message).standing = state.standing := by
  cases message <;> rfl

@[simp]
theorem standing_advancePhase (state : ConnectionState) :
    state.advancePhase.standing = state.standing.advancePhase := by
  by_cases hdown : state.phase = .disconnected
  · simp [advancePhase, Standing.advancePhase, standing, hdown]
  · by_cases hsent : state.handshakeSent = true
    · simp [advancePhase, Standing.advancePhase, standing, hdown, hsent]
    · simp [advancePhase, Standing.advancePhase, standing, hdown, hsent]

end ConnectionState
end PeerLink
