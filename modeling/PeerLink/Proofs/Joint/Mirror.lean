import PeerLink.Proofs.Connection.Ledger
import PeerLink.Proofs.Joint.Basic

/-!
# Two ledgers of one side

What a side says of itself is in its own record, and what its peer heard of it is in the
record of the peer.  The messages that are between the two records make up the
difference, whether they wait to be written, are partly written, are on their way, wait
to be read or wait in the buffer of the peer: `Joint.ledgers_mirror`.
-/

namespace PeerLink
namespace Joint

open Connection

variable {X Y : Type}

/-- What the other side queued and a side has not dispatched: what waits in its buffer,
what it has not read, what is on its way, and what is not written yet. -/
def undispatched (joint : Joint X Y) (s : Side) : Bytes :=
  (joint.side s).buffer.bytes ++ Transport.unread (joint.side s).transport.reads ++
    joint.onWay s ++ (joint.side s.other).outbox.pending.flatten

/-- The handshake of the other side, if it is queued and was not dispatched. -/
def opening (joint : Joint X Y) (s : Side) : Option Handshake :=
  if (joint.side s).state.handshakeReceived then none
  else (joint.side s.other).state.standing.ownHandshake?

/-- What waits for a side is the handshake of the other one, if it is still to come, and
then these messages.  Noted behind what it heard, they make what the other side says. -/
structure Mirrors (joint : Joint X Y) (s : Side) (waiting : List Message) : Prop where
  stream : joint.undispatched s =
    ((joint.opening s).map Handshake.encode).getD [] ++ waiting.flatMap Message.encode
  valid : ∀ message ∈ waiting, message.toFrame.IsValid
  ledger : (joint.side s).state.inward.noteAll waiting = (joint.side s.other).state.outward

variable [Capability X] [SubProtocol Y]

omit [Capability X] [SubProtocol Y] in
/-- Of the stream that one side queued, the other one has read a part.  Behind the frames
that it handed on, it is still to be told the rest. -/
theorem exists_waiting {c d : Connection X Y} {queue : List Bytes} {messages : List Message}
    {read rest : Bytes} {frames : List Frame} (hspoke : c.Spoke queue messages)
    (hvalid : ∀ message ∈ messages, message.toFrame.IsValid) (hintake : d.Intake read frames)
    (hstream : read ++ rest = queue.flatten) :
    ∃ told waiting, messages = told ++ waiting ∧ frames = told.map Message.toFrame ∧
      d.buffer.bytes ++ rest =
        ((if d.state.handshakeReceived then none
            else c.state.standing.ownHandshake?).map Handshake.encode).getD [] ++
          waiting.flatMap Message.encode := by
  cases hintake with
  | awaits hpeer hbytes =>
    have hreceived : d.state.handshakeReceived = false := congrArg Acquaintance.received hpeer
    refine ⟨[], messages, rfl, rfl, ?_⟩
    rw [hreceived, if_neg Bool.false_ne_true, ← hspoke.flatten_queue, ← hstream, hbytes]
  | met peer hpeer hbytes hframes =>
    have hreceived : d.state.handshakeReceived = true := congrArg Acquaintance.received hpeer
    rw [hreceived, if_pos rfl]
    rw [hbytes, List.append_assoc, List.append_assoc] at hstream
    have hbehind := (hspoke.ownHandshake?_of_encode hstream).2
    have hall : messages.flatMap Message.encode =
        (messages.map Message.toFrame).flatMap Frame.encode := by
      rw [List.flatMap_map]
      rfl
    rw [hall] at hbehind
    obtain ⟨left, hsplit, hleft⟩ := Frame.exists_append_of_flatMap_encode hframes
      (List.forall_mem_map.mpr hvalid) hbehind
    obtain ⟨told, waiting, rfl, htold, hwaiting⟩ := List.map_eq_append_iff.mp hsplit
    refine ⟨told, waiting, rfl, htold.symm, ?_⟩
    rw [hleft, ← hwaiting, List.flatMap_map]
    rfl

section Runs

variable (connected : Side → Bool) (config : Side → Config) (now : Nat)
  (happenings : List (Happening X Y)) (s : Side)

/-- What a side read, what it did not read, what is on its way to it and what the other
side has not written make up all that the other side ever queued. -/
theorem bytesRead_append :
    let start : Joint X Y := new connected config now
    let final := start.go happenings
    (final.side s.other).isDown = false →
      (start.side s).bytesRead (start.movesOf s happenings) ++
          (Transport.unread (final.side s).transport.reads ++
            (final.onWay s ++ (final.side s.other).outbox.pending.flatten)) =
        ((start.side s.other).queued (start.movesOf s.other happenings)).flatten := by
  intro start final hup
  have hread := bytesRead_append_unread (start.side s) (start.movesOf s happenings)
  have hcarried := incoming_append_onWay connected config now happenings s
  have hqueued := play_emits (start.side s.other) (start.movesOf s.other happenings)
  rw [← side_go] at hread hqueued
  have hstream := (hqueued.up hup).2
  rw [← List.append_assoc, ← List.append_assoc, hread, hcarried]
  exact hstream

/-- As long as both sides are up and one of them queued its handshake in front of all
else, each message that it queued is noted by its peer, or is still to be noted. -/
theorem ledgers_mirror (hX : Capability.Queues Output.IsNeutral X)
    (hY : SubProtocol.Queues Output.IsNeutral Y) :
    let start : Joint X Y := new connected config now
    let final := start.go happenings
    (start.side s.other).HoldsBack (start.movesOf s.other happenings) →
      (∀ bytes ∈ (start.side s.other).queued (start.movesOf s.other happenings),
        bytes.length < 2 ^ 32 + 4) →
      (final.side s.other).isDown = false → (final.side s).isDown = false →
      ∃ waiting, final.Mirrors s waiting := by
  intro start final hholds hfits hsender hreceiver
  have hstream := bytesRead_append connected config now happenings s hsender
  have hsame : ∀ t, final.side t = (start.side t).play (start.movesOf t happenings) :=
    fun t => side_go start t happenings
  obtain ⟨messages, hspoke, houtward⟩ := play_speaks
    (hX.mono fun _ h => h.1) (hY.mono fun _ h => h.1) (connected s.other) (config s.other) now
    (start.movesOf s.other happenings) hholds (hsame s.other ▸ hsender)
  have hvalid : ∀ message ∈ messages, message.toFrame.IsValid := by
    intro message hmessage
    apply Message.isValid_of_length
    cases hspoke with
    | silent => cases hmessage
    | spoke own _ _ hqueue =>
      have hqueued := List.mem_cons_of_mem own.encode
        (List.mem_map_of_mem (f := Message.encode) hmessage)
      rw [← hqueue] at hqueued
      exact hfits _ hqueued
  have hintake := play_intake (.new (connected s)) (config s) now (start.movesOf s happenings)
    (hsame s ▸ hreceiver)
  obtain ⟨told, waiting, rfl, hframes, hwaiting⟩ :=
    exists_waiting hspoke hvalid hintake hstream
  obtain ⟨htold, hleft⟩ := List.forall_mem_append.mp hvalid
  have hinward := play_notes hX hY (connected s) (config s) now (start.movesOf s happenings)
    (hsame s ▸ hreceiver) hframes htold
  refine ⟨waiting, ?_, hleft, ?_⟩
  · rw [undispatched, opening, List.append_assoc, List.append_assoc, hsame s, hsame s.other]
    rw [hsame s, hsame s.other] at hwaiting
    exact hwaiting
  · rw [hsame s, hsame s.other]
    refine Eq.trans (congrArg (Ledger.noteAll · waiting) hinward) ?_
    rw [← Ledger.noteAll_append]
    exact houtward.symm

end Runs

/-- The near side unchokes the far one and sends it a block.  The far side has heard the
first message, and the second one is cut where the transport put the near side off. -/
def cutBlock : List (Happening Empty Empty) :=
  [.call .far 0 (.handshake "0000000000000000000000000000000000000000" (List.replicate 20 7)),
    .call .near 0 (.handshake "0000000000000000000000000000000000000000" (List.replicate 20 8)),
    .call .near 0 (.send .unchoke),
    .call .near 0 (.send (.piece ⟨0, 0, [1, 2, 3]⟩)),
    .planWrites .near [.accept 68, .accept 5, .accept 6, .fault .wouldBlock],
    .call .near 0 .process, .carry .far 75, .call .far 0 .process]

theorem ledgers_mirror_of_cutBlock :
    let start : Joint Empty Empty := new (fun _ => true) (fun _ => .standard) 0
    let final := start.go cutBlock
    (final.side .near).state.outward = ⟨false, false, 3⟩ ∧
      (final.side .far).state.inward = ⟨false, false, 0⟩ ∧
      ∃ waiting, final.Mirrors .far waiting := by
  intro start final
  refine ⟨by decide +kernel, by decide +kernel, ?_⟩
  have hholds : (start.side .near).HoldsBack (start.movesOf .near cutBlock) :=
    holdsBack_of_greeting rfl (by decide +kernel)
  exact ledgers_mirror (fun _ => true) (fun _ => .standard) 0 cutBlock .far
    Capability.queues_empty SubProtocol.queues_empty hholds (by decide +kernel)
    (by decide +kernel) (by decide +kernel)

end Joint
end PeerLink
