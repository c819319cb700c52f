import PeerLink.Proofs.Connection.Carrying
import PeerLink.Proofs.Connection.Finality
import PeerLink.Proofs.Connection.Outbound

/-!
# Frames behind the teardown

A teardown drops what waits to be written, and a connection that is down takes no
messages.  Its modules still do: what they carry is queued and never written.  So a
connection stays quiet if and only if nothing is sent by way of a module while it is
down.
-/

namespace PeerLink
namespace Connection

variable {X Y : Type} [Capability X] [SubProtocol Y] {c d start : Connection X Y}

/-- The number of messages that the peer exchange counts as sent. -/
def exchanged? (c : Connection X Y) : Option Nat := c.peerExchange?.map fun found => found.1.sent

/-- While the connection is down, nothing waits to be written, no call with a frame to
queue succeeds, and the peer exchange counts no message as sent. -/
structure StaysQuiet (start : Connection X Y) (moves : List (Move X Y)) : Prop where
  pending : ∀ before, before <+: moves → (start.play before).isDown = true →
    (start.play before).outbox.pending = []
  refused : ∀ before now call, before ++ [.call now call] <+: moves →
    (start.play before).isDown = true → (start.play before).Carries call →
    ((start.play before).perform now call).2.succeeded = false
  uncounted : ∀ before now message, before ++ [.call now (.sendPeerExchange message)] <+: moves →
    (start.play before).isDown = true →
    ((start.play before).perform now (.sendPeerExchange message)).1.exchanged? =
      (start.play before).exchanged?

/-! ## The teardown drops what waits -/

/-- If the connection is down, nothing waits to be written. -/
def IsCleared (c : Connection X Y) : Prop := c.isDown = true → c.outbox.pending = []

omit [Capability X] [SubProtocol Y] in
theorem isCleared_of_up (h : d.isDown = c.isDown) (hup : c.isDown = false) : d.IsCleared := by
  intro hdown
  simp [h, hup] at hdown

theorem isCleared_teardown (hup : c.isDown = false) : c.teardown.IsCleared := by
  intro _
  rw [teardown, hup]
  rfl

omit [Capability X] [SubProtocol Y] in
theorem WireEffect.isCleared {P : Frame → Prop} (h : WireEffect P c d) (hup : c.isDown = false) :
    d.IsCleared := by
  cases h with
  | queued frames _ _ _ hsame => exact isCleared_of_up hsame hup
  | flushed accepted _ _ _ _ hlive => exact isCleared_of_up (hlive.trans hup.symm) hup
  | dropped _ hpending _ _ => exact fun _ => hpending

theorem PollStep.isCleared (h : PollStep c d) : d.IsCleared := by
  have hup : c.isDown = false := by cases h <;> assumption
  exact (h.wireEffect (fun _ => trivial) Capability.queues_anything
    SubProtocol.queues_anything).isCleared hup

theorem PollSteps.isCleared (h : PollSteps c d) (hc : c.IsCleared) : d.IsCleared := by
  cases h with
  | refl => exact hc
  | tail _ hstep => exact hstep.isCleared

theorem HandshakeOutcome.isCleared (h : HandshakeOutcome c d) (hup : c.isDown = false) :
    d.IsCleared := by
  cases h with
  | refused => exact isCleared_of_up rfl hup
  | mismatch _ => exact isCleared_teardown hup
  | introduced digest id _ hsent =>
    exact isCleared_of_up ((greet_isDown hup digest id).trans hup.symm) hup
  | failed digest id _ hsent => exact isCleared_teardown (greet_isDown hup digest id)

/-- What takes the connection down drops what waits. -/
theorem move_isCleared (hup : c.isDown = false) (m : Move X Y) : (c.move m).IsCleared := by
  have hsends : ∀ now (call : Call X Y), call.Sends → (c.perform now call).1.IsCleared := by
    intro now call h
    exact isCleared_of_up (isDown_eq_of_standing (perform_sendSteps c now call h).standing_eq) hup
  cases m with
  | stir stimulus => exact isCleared_of_up rfl hup
  | call now call =>
    cases call with
    | connect => exact isCleared_of_up (connect_isDown c) hup
    | handshake infoHash peerId => exact (handshake_outcome c infoHash peerId).isCleared hup
    | process => exact (process_pollSteps c now).isCleared (isCleared_of_up rfl hup)
    | disconnect => exact isCleared_teardown hup
    | addModule m =>
      refine isCleared_of_up ?_ hup
      change (c.addModule m).1.isDown = c.isDown
      rw [addModule]
      split <;> rfl
    | setPieceCount count => exact isCleared_of_up rfl hup
    | nextEvent => exact isCleared_of_up rfl hup
    | drainEvents => exact isCleared_of_up rfl hup
    | send message => exact hsends now (.send message) trivial
    | sendBitfield pieces disguised => exact hsends now (.sendBitfield pieces disguised) trivial
    | sendExtended name payload => exact hsends now (.sendExtended name payload) trivial
    | sendFromRegistry name payload => exact hsends now (.sendFromRegistry name payload) trivial
    | sendPeerExchange message => exact hsends now (.sendPeerExchange message) trivial
    | grantAllowedFast host pieceCount =>
      exact hsends now (.grantAllowedFast host pieceCount) trivial

/-! ## Calls on a connection that is down -/

/-- Only a call that goes to a module queues anything on a connection that is down. -/
theorem pending_move_of_isDown (h : c.isDown = true) {m : Move X Y}
    (hm : ∀ now call, m = .call now call → call.IsDirect → ¬ c.Carries call) :
    (c.move m).outbox.pending = c.outbox.pending := by
  have hfinal := isFinal_of_isDown h
  have hdirect : ∀ now (call : Call X Y), m = .call now call → call.IsDirect →
      (c.perform now call).1.outbox.pending = c.outbox.pending := by
    intro now call hcall hdirect
    rw [(perform_conveys c now hdirect).keeps (hm now call hcall hdirect)]
  cases m with
  | stir stimulus => rfl
  | call now call =>
    cases call with
    | connect => exact congrArg (·.1.outbox.pending) hfinal.connect
    | handshake infoHash peerId =>
      obtain ⟨failure, hsame⟩ := hfinal.handshake infoHash peerId
      exact congrArg (·.1.outbox.pending) hsame
    | process => exact congrArg (·.1.outbox.pending) (hfinal.process now)
    | disconnect =>
      have hsame : c.teardown = c := by rw [teardown, if_pos h]
      exact congrArg (·.outbox.pending) hsame
    | addModule m =>
      change (c.addModule m).1.outbox.pending = c.outbox.pending
      rw [addModule]
      split <;> rfl
    | setPieceCount count => rfl
    | nextEvent => rfl
    | drainEvents => rfl
    | send message => exact congrArg (·.1.outbox.pending) (hfinal.send now message)
    | sendBitfield pieces disguised =>
      change (c.sendBitfield now pieces disguised).1.outbox.pending = c.outbox.pending
      rw [sendBitfield, sendBitfieldWith]
      split
      · have hdead : ∀ picker, isDown { c with picker } = true := fun _ => h
        exact congrArg (·.1.outbox.pending) (sendAll_of_isDown (hdead _) now _ _)
      · rw [hfinal.send]
    | sendExtended name payload =>
      exact congrArg (·.1.outbox.pending) (hfinal.sendExtended name payload)
    | sendFromRegistry name payload => exact hdirect now _ rfl trivial
    | sendPeerExchange message => exact hdirect now _ rfl trivial
    | grantAllowedFast host pieceCount => exact hdirect now _ rfl trivial

/-- A call that does not go to a module and has a frame to queue fails on a connection
that is down. -/
theorem succeeded_of_isDown (h : c.isDown = true) (now : Nat) {call : Call X Y}
    (hcarries : c.Carries call) (hdirect : ¬ call.IsDirect) :
    (c.perform now call).2.succeeded = false := by
  have hfinal := isFinal_of_isDown h
  cases call with
  | send message => exact congrArg (fun sent => sent.2.isOk) (hfinal.send now message)
  | sendBitfield pieces disguised =>
    exact congrArg Except.isOk (hfinal.sendBitfield now pieces disguised)
  | sendExtended name payload =>
    exact congrArg (fun sent => sent.2.isOk) (hfinal.sendExtended name payload)
  | sendFromRegistry | sendPeerExchange | grantAllowedFast => exact absurd trivial hdirect
  | _ => exact hcarries.elim

/-! ## Runs -/

/-- No frame is sent by way of a module while the connection is down. -/
def SparesModules (start : Connection X Y) (moves : List (Move X Y)) : Prop :=
  ∀ before now call, before ++ [.call now call] <+: moves → (start.play before).isDown = true →
    call.IsDirect → ¬ (start.play before).Carries call

theorem isCleared_play (hstart : start.IsCleared) {moves : List (Move X Y)}
    (h : SparesModules start moves) : (start.play moves).IsCleared := by
  induction moves using List.reverseRecOn with
  | nil => exact hstart
  | append_singleton moves m ih =>
    have hearlier : SparesModules start moves := fun before now call hbefore =>
      h before now call (hbefore.trans (List.prefix_append moves [m]))
    rw [play_concat]
    by_cases hdown : (start.play moves).isDown = true
    · intro _
      have hspares : ∀ now call, m = .call now call → call.IsDirect →
          ¬ (start.play moves).Carries call := by
        rintro now call rfl
        exact h moves now call (List.prefix_refl _) hdown
      rw [pending_move_of_isDown hdown hspares]
      exact ih hearlier hdown
    · exact move_isCleared (by simpa using hdown) m

/-- A connection that is down stays quiet if and only if no call that goes to a module
has a frame to queue. -/
theorem staysQuiet_iff_sparesModules (transport : Transport) (config : Config) (now : Nat)
    (moves : List (Move X Y)) :
    let start : Connection X Y := new transport config now
    StaysQuiet start moves ↔ SparesModules start moves := by
  intro start
  have hstart : start.IsCleared := fun _ => rfl
  constructor
  · intro h before time call hbefore hdown hdirect hcarries
    have hrefused := h.refused before time call hbefore hdown hcarries
    have hsucceeded := ((perform_conveys _ time hdirect).queues hcarries).1
    simp [hrefused] at hsucceeded
  · intro h
    refine ⟨?_, ?_, ?_⟩
    · intro before hbefore
      apply isCleared_play hstart
      intro first time call hfirst
      exact h first time call (hfirst.trans hbefore)
    · intro before time call hbefore hdown hcarries
      have hdirect : ¬ call.IsDirect := fun hdirect =>
        h before time call hbefore hdown hdirect hcarries
      exact succeeded_of_isDown hdown time hcarries hdirect
    · intro before time message hbefore hdown
      have hcarries := h before time _ hbefore hdown trivial
      have hdirect : (Call.sendPeerExchange message : Call X Y).IsDirect := trivial
      rw [(perform_conveys _ time hdirect).keeps hcarries]

/-- A connection that is down queues the allowed pieces, and never writes them. -/
theorem not_staysQuiet_of_grant :
    ¬ StaysQuiet (new (.new true) .standard 0 : Connection Empty Empty)
      [.call 0 (.addModule (.fast .empty)),
        .call 0 (.handshake "aaaaaaaaaaaaaaaaaaaaaaaaaaaaaaaaaaaaaaaa" (List.replicate 20 7)),
        .call 0 .disconnect,
        .call 0 (.grantAllowedFast (.v4 (Vector.replicate 4 1)) 1)] := by
  intro h
  have hpending := h.pending _ (List.prefix_refl _) (by decide +kernel)
  revert hpending
  decide +kernel

end Connection
end PeerLink
