import PeerLink.Proofs.Connection.Finality
import PeerLink.Proofs.Connection.Intake
import PeerLink.Proofs.Wire.Chunks

/-!
# How much waits in the buffer

What a connection keeps of the bytes it read is less than one item: less than a
handshake as long as it has none of its peer, and then less than the longest frame it
accepts and the four bytes of a length.  A peer cannot make it keep more by declaring
longer frames, since a length above the limit takes the connection down as soon as it
can be read.  `process_holdsLittle` says so for every run and every round.
-/

namespace PeerLink

namespace Reassembly

variable {buffer : Reassembly}

/-- As long as there is no handshake to take, less than one has arrived, and nothing that
none begins with. -/
theorem length_lt_of_takeHandshake_eq_none (h : buffer.takeHandshake = .ok none) :
    buffer.bytes.take 20 <+: Handshake.opening ∧ buffer.bytes.length < Handshake.size := by
  rw [takeHandshake] at h
  split at h
  · next hagrees =>
    refine ⟨List.isPrefixOf_iff_prefix.mp hagrees, ?_⟩
    by_contra hlong
    obtain ⟨handshake, hsplit⟩ := Handshake.exists_split? (Nat.not_lt.mp hlong)
    rw [hsplit] at h
    cases h
  · cases h

/-- As long as there is no frame to take, none is complete, and what there is of one is
shorter than the limit and the four bytes of its length. -/
theorem length_lt_of_nextFrame_eq_none (h : buffer.nextFrame = .ok none) :
    Frame.parse? buffer.bytes = none ∧ buffer.bytes.length < buffer.limit + 4 := by
  have hparse := h
  rw [nextFrame_eq_parse? (not_declaresAbove_of_ok h)] at hparse
  refine ⟨Option.map_eq_none_iff.mp (Except.ok.inj hparse), ?_⟩
  rw [nextFrame] at h
  split at h
  · next hword =>
    have hshort : ¬ 4 ≤ buffer.bytes.length := by
      rw [← Frame.isSome_declaredLength?, Frame.declaredLength?, hword]
      exact Bool.false_ne_true
    omega
  · next length body hword =>
    split at h
    · cases h
    · next hlimit =>
      split at h
      · next hsplit =>
        have hbody := Bytes.splitAt?_eq_none_iff.mp hsplit
        have hlength : buffer.bytes.length = 4 + body.length := by
          rw [Bytes.eq_of_takeUInt32? hword, List.length_append]
          rfl
        omega
      · cases h

end Reassembly

namespace Connection

variable {X Y : Type}

/-- The buffer of a connection that accepts frames up to `limit` holds less than one
item of its peer. -/
structure HoldsLittle (limit : Nat) (c : Connection X Y) : Prop where
  /-- Before the peer's handshake: a part of one, which agrees with its opening. -/
  opening : c.state.handshakeReceived = false →
    c.buffer.bytes.take 20 <+: Handshake.opening ∧ c.buffer.bytes.length < Handshake.size
  /-- Behind it: a part of a frame. -/
  frame : c.state.handshakeReceived = true →
    Frame.parse? c.buffer.bytes = none ∧ c.buffer.bytes.length < limit + 4

variable {c start : Connection X Y}

/-- A connection that waits for more holds less than what it waits for. -/
theorem IsWaiting.holdsLittle (h : c.IsWaiting) (hup : c.isDown = false) :
    c.HoldsLittle c.buffer.limit where
  opening hreceived := Reassembly.length_lt_of_takeHandshake_eq_none
    ((Listener.nextItem_eq_none_iff_takeHandshake hreceived).mp (h hup))
  frame hreceived := Reassembly.length_lt_of_nextFrame_eq_none
    ((Listener.nextItem_eq_none_iff hreceived).mp (h hup))

variable [Capability X] [SubProtocol Y]

/-- No move changes how long a frame may be. -/
theorem move_keeps_limit {m : Move X Y} (hup : (c.move m).isDown = false) :
    c.isDown = false ∧ (c.move m).buffer.limit = c.buffer.limit := by
  by_cases hm : ∃ now, m = .call now .process
  · obtain ⟨now, rfl⟩ := hm
    change (c.process now).1.isDown = false at hup
    change c.isDown = false ∧ (c.process now).1.buffer.limit = c.buffer.limit
    by_cases hopen : c.IsOpen
    · obtain ⟨hgoes, -⟩ := hopen.process_goesOn hup
      have hlimit := Listener.limit_listen (c.listener.feed c.arrival.data)
      rw [← hgoes.listener] at hlimit
      exact ⟨hopen.up, hlimit⟩
    · rcases process_of_not_isOpen hopen now with hsame | hdown
      · rw [hsame] at hup ⊢
        exact ⟨hup, rfl⟩
      · rw [hdown, isDown_teardown] at hup
        cases hup
  · obtain ⟨hlive, -, hbuffer⟩ := move_keeps_intake (not_exists.mp hm) hup
    exact ⟨hlive, congrArg Reassembly.limit hbuffer⟩

theorem play_keeps_limit {moves : List (Move X Y)} (hup : (start.play moves).isDown = false) :
    (start.play moves).buffer.limit = start.buffer.limit := by
  induction moves using List.reverseRecOn with
  | nil => rfl
  | append_singleton moves m ih =>
    rw [play_concat] at hup ⊢
    obtain ⟨hlive, hlimit⟩ := move_keeps_limit hup
    exact hlimit.trans (ih hlive)

/-- At any moment of a run at which the connection is up, its buffer holds less than one
item. -/
theorem play_holdsLittle (transport : Transport) (config : Config) (now : Nat)
    {moves : List (Move X Y)}
    (hup : ((new transport config now : Connection X Y).play moves).isDown = false) :
    ((new transport config now : Connection X Y).play moves).HoldsLittle
      config.maxFrameLength := by
  have hwaits : (new transport config now : Connection X Y).IsWaiting := fun _ => rfl
  have hheld := (hwaits.play moves).holdsLittle hup
  rwa [play_keeps_limit hup] at hheld

/-- After every round that answers that the connection is up, whatever happened before it
and whatever the peer sent: without the peer's handshake, the buffer holds less than the
68 bytes of one, and they agree with the name of the protocol; with it, the buffer holds
no complete frame, and less than four bytes more than the greatest length accepted. -/
theorem process_holdsLittle (transport : Transport) (config : Config) (now : Nat)
    (moves : List (Move X Y)) (time : Nat)
    (hup : (((new transport config now : Connection X Y).play moves).process time).2 = true) :
    (((new transport config now : Connection X Y).play moves).process time).1.HoldsLittle
      config.maxFrameLength := by
  let start : Connection X Y := new transport config now
  have hlive : (start.play (moves ++ [.call time .process])).isDown = false := by
    rw [play_concat, ← Bool.not_eq_true]
    intro hdown
    rw [(process_eq_false_iff (start.play moves) time).mpr hdown] at hup
    cases hup
  have hheld := play_holdsLittle transport config now hlive
  rwa [play_concat] at hheld

/-- Frames of up to five bytes are accepted.  All but the last byte of a handshake waits
for that byte; behind a handshake and a frame, the first six bytes of one of nine wait for
the rest of it. -/
theorem process_holdsLittle_of_partialFrame :
    let peer : Handshake := ⟨.none, Vector.replicate 20 0, ⟨Vector.replicate 20 8⟩⟩
    let fed (data : Bytes) : Connection Empty Empty :=
      (new (.new true) { Config.standard with maxFrameLength := 5 } 0).play
        [.stir (.feed [.data data])]
    let early := ((fed (peer.encode.take 67)).process 1).1
    let late := ((fed (peer.encode ++ [0, 0, 0, 1, 0, 0, 0, 0, 5, 4, 0])).process 1).1
    (early.HoldsLittle 5 ∧ early.buffer.bytes.length = 67) ∧
      late.HoldsLittle 5 ∧ late.buffer.bytes = [0, 0, 0, 5, 4, 0] := by
  intro peer fed early late
  have hearly : ((fed (peer.encode.take 67)).process 1).2 = true := by decide +kernel
  have hlate : ((fed (peer.encode ++ [0, 0, 0, 1, 0, 0, 0, 0, 5, 4, 0])).process 1).2 = true := by
    decide +kernel
  exact ⟨⟨process_holdsLittle _ _ 0 _ 1 hearly, by decide +kernel⟩,
    process_holdsLittle _ _ 0 _ 1 hlate, by decide +kernel⟩

end Connection
end PeerLink
