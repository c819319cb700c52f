import PeerLink.Proofs.Connection.Round

/-!
# What is heard before the peer closes

The frames that were complete before the round that meets the end of the peer's
stream are heard, in order, and then the connection is torn down.  The frames that
this last round completes are lost: it reads their bytes and does not look at
them.
-/

namespace PeerLink
namespace Connection

variable {X Y : Type} [Capability X] [SubProtocol Y] {c : Connection X Y}

/-- Some run leads to the connection. -/
def IsReachable (c : Connection X Y) : Prop :=
  ∃ transport config now moves, c = (new transport config now).play moves

/-- Hearing the frames from `c` on raised all news that `final` adds, and then the
connection was reported as dropped. -/
def TellsAll (c : Connection X Y) (frames : List Frame) (final : Connection X Y) : Prop :=
  Event.news final.outbox.events =
    Event.news c.outbox.events ++ Event.news (c.session.hearAll frames).output.events ++
      [.droppedConnection]

/-- From `c`, hearing the frames and then tearing down leads to `final`. -/
structure ClosedAfter (c : Connection X Y) (frames : List Frame) (final : Connection X Y) :
    Prop where
  state : final.state = { (c.session.hearAll frames).next.state with phase := .disconnected }
  modules : final.modules = (Capability.teardownAll (c.session.hearAll frames).next.modules).1
  news : TellsAll c frames final

theorem IsReachable.isWaiting (h : c.IsReachable) : c.IsWaiting := by
  obtain ⟨transport, config, now, moves, rfl⟩ := h
  apply IsWaiting.play
  intro _
  rfl

theorem IsReachable.isDrained (h : c.IsReachable) (hup : c.isDown = false)
    (hreceived : c.state.handshakeReceived = true) : c.buffer.nextFrame = .ok none :=
  (Listener.nextItem_eq_none_iff hreceived).mp (h.isWaiting hup)

theorem IsReachable.isSound (h : c.IsReachable) : c.state.standing.IsSound := by
  obtain ⟨transport, config, now, moves, rfl⟩ := h
  apply play_isSound
  intro hphase
  dsimp only [new, ConnectionState.standing] at hphase
  split at hphase <;> cases hphase

theorem IsReachable.isListening (h : c.IsReachable) (hphase : c.state.phase = .established)
    (hopen : c.transport.connected = true) : c.IsListening := by
  refine ⟨?_, h.isSound hphase, hopen⟩
  rw [isDown, hphase]
  rfl

theorem tellsAll_append_iff {final : Connection X Y} {timely lost : List Frame}
    (h : TellsAll c timely final) (hresult : (c.session.hearAll timely).result = .ok ()) :
    TellsAll c (timely ++ lost) final ↔
      Event.news ((c.session.hearAll timely).next.hearAll lost).output.events = [] := by
  have hhear := Session.hearAll_append hresult lost
  have hevents : (c.session.hearAll (timely ++ lost)).output.events =
      (c.session.hearAll timely).output.events ++
        ((c.session.hearAll timely).next.hearAll lost).output.events := by
    rw [hhear]
    rfl
  rw [TellsAll, hevents, Event.news_append, h]
  simp

/-- An established connection hears the frames that are complete before the round that
meets the end of the stream, and no others.  So the owner is told about all frames if
and only if that round completes none that would have raised an event. -/
theorem closedAfter_of_close (hreach : c.IsReachable) (hphase : c.state.phase = .established)
    (hopen : c.transport.connected = true) {times : List Nat} (now : Nat) {frames : List Frame}
    (hup : (c.processAll times).isDown = false)
    (hclose : (c.processAll times).arrival.fault = some .connectionClosed)
    (hfits : ∀ frame ∈ frames, frame.Fits c.buffer.limit)
    (hstream : c.buffer.bytes ++ c.delivered times ++ (c.processAll times).arrival.data =
      frames.flatMap Frame.encode) :
    ∃ timely lost, frames = timely ++ lost ∧
      (lost = [] ↔ (c.processAll times).arrival.data = []) ∧
      ClosedAfter c timely ((c.processAll times).process now).1 ∧
      (TellsAll c frames ((c.processAll times).process now).1 ↔
        Event.news ((c.session.hearAll timely).next.hearAll lost).output.events = []) := by
  have hc := hreach.isListening hphase hopen
  have hwaits := hreach.isDrained hc.up hc.received
  obtain ⟨hhears, hlast⟩ := hc.processAll_hears hwaits hup
  obtain ⟨lost, hframes, hlost⟩ :=
    Reassembly.exists_eq_drain_append hfits hstream hhears.fault
  obtain ⟨hstate, hmodules, hevents⟩ := hlast.process_of_fault hclose now
  have hsession := hhears.session
  have hclosed : ClosedAfter c (c.buffer.feed (c.delivered times)).drain.frames
      ((c.processAll times).process now).1 := by
    refine ⟨?_, ?_, ?_⟩
    · rw [hstate, ← hsession]
      rfl
    · rw [hmodules, ← hsession]
      rfl
    · rw [TellsAll, hevents, Event.news_append, hhears.news]
      rfl
  refine ⟨_, lost, hframes, hlost, hclosed, ?_⟩
  rw [hframes]
  exact tellsAll_append_iff hclosed.news hhears.result

/-- A connection that is established, and then gets these answers from its transport. -/
def establishedWith (reads : List ReadAnswer) : Connection Empty Empty :=
  (new (.new true) .standard 0).play
    [.call 0 (.handshake "0000000000000000000000000000000000000000" (List.replicate 20 7)),
      .stir (.feed [.data (Handshake.encode
        ⟨.none, Vector.replicate 20 0, ⟨Vector.replicate 20 8⟩⟩)]),
      .call 0 .process, .stir (.feed reads)]

theorem establishedWith_isReachable (reads : List ReadAnswer) :
    (establishedWith reads).IsReachable := ⟨_, _, _, _, rfl⟩

/-- Two frames arrive in different rounds, the second together with the end of the
stream: the first is heard and the second is lost. -/
theorem closedAfter_of_close_of_twoRounds :
    let reads := [.data (Message.encode (.havePiece 5)), .fault .wouldBlock,
      .data (Message.encode .unchoke), .data []]
    ∃ timely lost, [Message.toFrame (.havePiece 5), Message.toFrame .unchoke] = timely ++ lost ∧
      lost ≠ [] ∧
      ClosedAfter (establishedWith reads) timely
        (((establishedWith reads).processAll [1]).process 2).1 := by
  intro reads
  have hphase : (establishedWith reads).state.phase = .established := by decide +kernel
  have hopen : (establishedWith reads).transport.connected = true := by decide +kernel
  have hup : ((establishedWith reads).processAll [1]).isDown = false := by decide +kernel
  have hclose : ((establishedWith reads).processAll [1]).arrival.fault =
      some .connectionClosed := by decide +kernel
  have hdata : ((establishedWith reads).processAll [1]).arrival.data ≠ [] := by decide +kernel
  have hfits : ∀ frame ∈ [Message.toFrame (.havePiece 5), Message.toFrame .unchoke],
      frame.Fits (establishedWith reads).buffer.limit := by decide +kernel
  have hstream : (establishedWith reads).buffer.bytes ++ (establishedWith reads).delivered [1] ++
      ((establishedWith reads).processAll [1]).arrival.data =
        [Message.toFrame (.havePiece 5), Message.toFrame .unchoke].flatMap Frame.encode := by
    decide +kernel
  obtain ⟨timely, lost, hframes, hlost, hclosed, -⟩ := closedAfter_of_close
    (establishedWith_isReachable reads) hphase hopen 2 hup hclose hfits hstream
  exact ⟨timely, lost, hframes, fun hnone => hdata (hlost.mp hnone), hclosed⟩

/-- A frame that arrives in the same round as the end of the stream is not told. -/
theorem not_tellsAll_of_sameRound :
    let c := establishedWith [.data (Message.encode (.havePiece 5)), .data []]
    c.state.phase = .established ∧
      c.arrival.data = (Message.toFrame (.havePiece 5)).encode ∧
      c.arrival.fault = some .connectionClosed ∧
      ¬ TellsAll c [Message.toFrame (.havePiece 5)] (c.process 1).1 := by
  intro c
  refine ⟨by decide +kernel, by decide +kernel, by decide +kernel, ?_⟩
  have htold : Event.news (c.process 1).1.outbox.events =
      Event.news c.outbox.events ++ [.droppedConnection] := by decide +kernel
  have hheard : Event.news (c.session.hearAll [Message.toFrame (.havePiece 5)]).output.events =
      [.havePiece 5] := by decide +kernel
  rw [TellsAll, htold, hheard]
  simp

end Connection
end PeerLink
