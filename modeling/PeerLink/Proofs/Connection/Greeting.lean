import Mathlib.Data.List.Induction
import PeerLink.Proofs.Connection.Outbound
import PeerLink.Proofs.Connection.Standing

/-!
# Our handshake on the wire

Frames may be queued at any time, also before our own handshake is.  A run
writes nothing in front of our handshake exactly if it holds back: as long as
the handshake is not queued, no frame is queued either.  Otherwise the first
frame leads the stream of outgoing bytes, and at most the four bytes of its
length can agree with a handshake.
-/

namespace PeerLink

/-! ## Frames that do not look like a handshake -/

/-- The command of the frame, if it has one, is a known one. -/
def Frame.IsKnown (frame : Frame) : Prop :=
  ∀ id, frame.id? = some id → (Command.ofByte? id).isSome

theorem Message.isKnown_toFrame (message : Message) : message.toFrame.IsKnown := by
  intro id hid
  have hframe : ∀ (command : Command) (payload : Bytes),
      (toFrame.frame command payload).id? = some id → (Command.ofByte? id).isSome := by
    intro command payload h
    obtain rfl := Option.some.inj h
    simp
  cases message with
  | keepAlive => cases hid
  | _ => exact hframe _ _ hid

/-- The bytes that a handshake can share with a frame of a known command. -/
def sharedOpening : Bytes := Handshake.opening.take 4

theorem Handshake.getElem?_encode_append (handshake : Handshake) (rest : Bytes) :
    (handshake.encode ++ rest)[0]? = some 19 ∧ (handshake.encode ++ rest)[4]? = some 84 := by
  have hsplit : handshake.encode ++ rest = opening ++ (handshake.encode.drop 20 ++ rest) := by
    rw [← List.append_assoc]
    rfl
  rw [hsplit]
  exact ⟨rfl, rfl⟩

theorem Handshake.sharedOpening_prefix (handshake : Handshake) (rest : Bytes) :
    sharedOpening <+: handshake.encode ++ rest :=
  ((List.take_prefix 4 opening).trans (List.prefix_append opening _)).trans
    (List.prefix_append _ rest)

theorem Frame.IsKnown.prefix_sharedOpening {frame : Frame} (hknown : frame.IsKnown)
    {handshake : Handshake} {written rest rest' : Bytes}
    (hframe : written <+: frame.encode ++ rest)
    (hhandshake : written <+: handshake.encode ++ rest') : written <+: sharedOpening := by
  have hagree : ∀ n, n < written.length →
      (frame.encode ++ rest)[n]? = (handshake.encode ++ rest')[n]? := by
    intro n hn
    rw [List.prefix_iff_getElem?.mp hframe n hn, List.prefix_iff_getElem?.mp hhandshake n hn]
  obtain ⟨hfirst, hfifth⟩ := handshake.getElem?_encode_append rest'
  have hlength : written.length ≤ 4 := by
    by_contra hlong
    -- a length of 0x13426974 can be, but `T` is the byte of no command
    cases frame with
    | keepAlive =>
      have hzero := (hagree 0 (by omega)).trans hfirst
      simp [Frame.encode, Bytes.ofUInt32] at hzero
    | message id length payload =>
      have hid : some id = some 84 := (hagree 4 (by omega)).trans hfifth
      have hnone : ¬ (Command.ofByte? 84).isSome := by decide
      obtain rfl := Option.some.inj hid
      exact hnone (hknown 84 rfl)
  exact List.prefix_of_prefix_length_le hhandshake (handshake.sharedOpening_prefix rest') hlength

namespace Connection

variable {X Y : Type} {P : Frame → Prop}

/-- Nothing was written and nothing is queued. -/
def IsSilent (c : Connection X Y) : Prop := c.outgoing = []

/-- The bytes that were written begin a stream that has our own handshake in front.
Nothing at all may be written as long as there is none. -/
def OpensWithHandshake (c : Connection X Y) : Prop :=
  c.transport.written = [] ∨
    ∃ handshake rest, c.state.standing.ownHandshake? = some handshake ∧
      c.transport.written <+: handshake.encode ++ rest

/-- The outgoing bytes begin with our handshake. -/
def LeadsWithHandshake (c : Connection X Y) : Prop :=
  ∃ handshake, c.state.standing.ownHandshake? = some handshake ∧ c.LeadsWith handshake.encode

variable {c d start : Connection X Y} {moves : List (Move X Y)}

theorem LeadsWithHandshake.opens (h : c.LeadsWithHandshake) : c.OpensWithHandshake := by
  obtain ⟨handshake, hown, rest, hwritten, -⟩ := h
  exact .inr ⟨handshake, rest, hown, hwritten⟩

theorem IsSilent.written_eq (h : c.IsSilent) : c.transport.written = [] :=
  (List.append_eq_nil_iff.mp h).1

theorem IsSilent.wireEffect (h : c.IsSilent) (heffect : WireEffect P c d) :
    d.IsSilent ∨ ∃ frame, P frame ∧ d.LeadsWith frame.encode := by
  obtain ⟨hwritten, hpending⟩ := List.append_eq_nil_iff.mp h
  cases heffect with
  | queued frames hframes hqueued hsame hdown =>
    have houtgoing : d.outgoing = (frames.map Frame.encode).flatten := by
      rw [outgoing, hsame, hwritten, hqueued, List.flatten_append, hpending]
      rfl
    cases frames with
    | nil => exact .inl houtgoing
    | cons frame rest =>
      exact .inr ⟨frame, hframes frame List.mem_cons_self, leadsWith_of_outgoing houtgoing⟩
  | flushed accepted hup hmore hrest _ hdown =>
    left
    rw [IsSilent, outgoing, hmore, List.append_assoc, hrest]
    exact h
  | dropped hup hdropped hsame hdown =>
    left
    rw [IsSilent, outgoing, hsame, hdropped, hwritten]
    rfl

variable [Capability X] [SubProtocol Y]

/-- Until our handshake is queued, nothing is. -/
def HoldsBack (start : Connection X Y) (moves : List (Move X Y)) : Prop :=
  ∀ before, before <+: moves → (start.play before).state.handshakeSent = false →
    (start.play before).IsSilent

theorem HoldsBack.earlier {later : List (Move X Y)} (h : HoldsBack start (moves ++ later)) :
    HoldsBack start moves :=
  fun before hbefore => h before (hbefore.trans (List.prefix_append moves later))

/-! ## Our handshake in the record -/

theorem greet_ownHandshake (c : Connection X Y) (infoHash : Digest) (peerId : PeerId) :
    (c.greet infoHash peerId).state.handshakeSent = true ∧
      (c.greet infoHash peerId).state.standing.ownHandshake? =
        some ⟨Capability.reserved c.modules, infoHash, peerId⟩ := by
  have hstanding := standing_greet c infoHash peerId
  constructor
  · exact (congrArg Standing.handshakeSent hstanding).trans
      (Standing.handshakeSent_advancePhase _)
  · exact (congrArg Standing.ownHandshake? hstanding).trans
      (Standing.ownHandshake?_advancePhase _)

theorem outgoing_greet (c : Connection X Y) (infoHash : Digest) (peerId : PeerId) :
    (c.greet infoHash peerId).outgoing =
      c.outgoing ++ Handshake.encode ⟨Capability.reserved c.modules, infoHash, peerId⟩ := by
  simp [outgoing, greet, Outbox.pushBytes, List.append_assoc]

/-- Our handshake is queued exactly if the record has both of its parts. -/
def KnowsGreeting (c : Connection X Y) : Prop :=
  c.state.handshakeSent = true ↔ ∃ handshake, c.state.standing.ownHandshake? = some handshake

theorem KnowsGreeting.move (h : c.KnowsGreeting) (m : Move X Y) : (c.move m).KnowsGreeting := by
  rcases move_steps c m with hsteps | ⟨infoHash, peerId, -, -, hsteps⟩
  · obtain ⟨hsent, hown⟩ := hsteps.keeps_greeting
    rw [KnowsGreeting, hsent, hown]
    exact h
  · obtain ⟨hsent, hown⟩ := hsteps.keeps_greeting
    obtain ⟨hgreeted, hhandshake⟩ := greet_ownHandshake c infoHash peerId
    rw [KnowsGreeting, hsent, hown, hgreeted, hhandshake]
    exact ⟨fun _ => ⟨_, rfl⟩, fun _ => rfl⟩

theorem KnowsGreeting.play (h : start.KnowsGreeting) (moves : List (Move X Y)) :
    (start.play moves).KnowsGreeting := by
  induction moves using List.reverseRecOn with
  | nil => exact h
  | append_singleton moves m ih =>
    rw [play_concat]
    exact ih.move m

/-! ## Runs that hold back -/

theorem LeadsWith.steps {bytes : Bytes} (h : c.LeadsWith bytes) (hsteps : Steps c d) :
    d.LeadsWith bytes :=
  hsteps.keeps (p := fun d => d.LeadsWith bytes) (fun heffect hc => hc.wireEffect heffect) h

theorem LeadsWithHandshake.steps (h : c.LeadsWithHandshake) (hsteps : Steps c d) :
    d.LeadsWithHandshake := by
  obtain ⟨handshake, hown, hleads⟩ := h
  exact ⟨handshake, hsteps.keeps_greeting.2.trans hown, hleads.steps hsteps⟩

/-- Greeting while nothing is queued puts our handshake in front. -/
theorem IsSilent.greet (h : c.IsSilent) (infoHash : Digest) (peerId : PeerId) :
    (c.greet infoHash peerId).LeadsWithHandshake := by
  let handshake : Handshake := ⟨Capability.reserved c.modules, infoHash, peerId⟩
  have houtgoing : (c.greet infoHash peerId).outgoing = handshake.encode ++ [] := by
    rw [outgoing_greet, h]
    exact (List.append_nil _).symm
  exact ⟨handshake, (greet_ownHandshake c infoHash peerId).2, leadsWith_of_outgoing houtgoing⟩

theorem HoldsBack.leadsWithHandshake (h : HoldsBack start moves)
    (hstart : start.state.handshakeSent = false)
    (hsent : (start.play moves).state.handshakeSent = true) :
    (start.play moves).LeadsWithHandshake := by
  induction moves using List.reverseRecOn with
  | nil =>
    rw [play_nil, hstart] at hsent
    cases hsent
  | append_singleton moves m ih =>
    rw [play_concat] at hsent ⊢
    by_cases hgreeted : (start.play moves).state.handshakeSent = true
    · have hleads := ih h.earlier hgreeted
      rcases move_steps (start.play moves) m with hsteps | ⟨infoHash, peerId, -, hnot, -⟩
      · exact hleads.steps hsteps
      · simp [hgreeted] at hnot
    · have hgreeted : (start.play moves).state.handshakeSent = false := by simpa using hgreeted
      have hsilent := h.earlier moves (List.prefix_refl moves) hgreeted
      rcases move_steps (start.play moves) m with hsteps | ⟨infoHash, peerId, -, -, hsteps⟩
      · rw [hsteps.keeps_greeting.1, hgreeted] at hsent
        cases hsent
      · exact (hsilent.greet infoHash peerId).steps hsteps

theorem HoldsBack.opens (h : HoldsBack start moves)
    (hstart : start.state.handshakeSent = false) : (start.play moves).OpensWithHandshake := by
  by_cases hsent : (start.play moves).state.handshakeSent = true
  · exact (h.leadsWithHandshake hstart hsent).opens
  · exact .inl (h moves (List.prefix_refl moves) (by simpa using hsent)).written_eq

/-! ## Runs that do not hold back -/

theorem LeadsWith.greet {bytes : Bytes} (h : c.LeadsWith bytes) (hup : c.isDown = false)
    (infoHash : Digest) (peerId : PeerId) : (c.greet infoHash peerId).LeadsWith bytes := by
  obtain ⟨rest, -, houtgoing⟩ := h
  apply leadsWith_of_outgoing
  rw [outgoing_greet, houtgoing hup, List.append_assoc]

theorem LeadsWith.play {bytes : Bytes} (h : c.LeadsWith bytes) (moves : List (Move X Y)) :
    (c.play moves).LeadsWith bytes := by
  induction moves using List.reverseRecOn with
  | nil => exact h
  | append_singleton moves m ih =>
    rw [play_concat]
    rcases move_steps (c.play moves) m with hsteps | ⟨infoHash, peerId, hup, -, hsteps⟩
    · exact ih.steps hsteps
    · exact (ih.greet hup infoHash peerId).steps hsteps

theorem handshakeSent_move (h : c.state.handshakeSent = true) (m : Move X Y) :
    (c.move m).state.handshakeSent = true := by
  rcases move_steps c m with hsteps | ⟨infoHash, peerId, -, hnot, -⟩
  · exact hsteps.keeps_greeting.1.trans h
  · simp [h] at hnot

theorem handshakeSent_play (h : c.state.handshakeSent = true) (moves : List (Move X Y)) :
    (c.play moves).state.handshakeSent = true := by
  induction moves using List.reverseRecOn with
  | nil => exact h
  | append_singleton moves m ih =>
    rw [play_concat]
    exact handshakeSent_move ih m

/-- A connection that queues nothing by its first move holds back if it does from there. -/
theorem HoldsBack.cons {m : Move X Y} (hstart : start.IsSilent)
    (h : HoldsBack (start.move m) moves) : HoldsBack start (m :: moves) := by
  intro before hbefore hunsent
  cases before with
  | nil => exact hstart
  | cons first before =>
    obtain ⟨rfl, hrest⟩ := List.cons_prefix_cons.mp hbefore
    exact h before hrest hunsent

/-- A connection that greets before it does anything else holds back. -/
theorem holdsBack_of_greeting (hstart : start.IsSilent)
    (h : (start.play (moves.take 1)).state.handshakeSent = true) : HoldsBack start moves := by
  rintro before ⟨later, rfl⟩ hunsent
  cases before with
  | nil => exact hstart
  | cons m before =>
    have hsent : (start.play ([m] ++ before)).state.handshakeSent = true := by
      rw [play_append]
      exact handshakeSent_play h before
    rw [List.singleton_append, hunsent] at hsent
    cases hsent

section Known

variable (hX : Capability.Queues (Output.Within Frame.IsKnown) X)
  (hY : SubProtocol.Queues (Output.Within Frame.IsKnown) Y)
include hX hY

theorem IsSilent.steps (h : c.IsSilent) (hsteps : Steps c d) :
    d.IsSilent ∨ ∃ frame : Frame, frame.IsKnown ∧ d.LeadsWith frame.encode := by
  induction hsteps with
  | refl => exact .inl h
  | tail _ hstep ih =>
    have heffect := hstep.wireEffect Message.isKnown_toFrame hX hY
    rcases ih with hsilent | ⟨frame, hknown, hleads⟩
    · exact hsilent.wireEffect heffect
    · exact .inr ⟨frame, hknown, hleads.wireEffect heffect⟩

theorem IsSilent.play (h : start.IsSilent)
    (hunsent : (start.play moves).state.handshakeSent = false) :
    (start.play moves).IsSilent ∨
      ∃ frame : Frame, frame.IsKnown ∧ (start.play moves).LeadsWith frame.encode := by
  induction moves using List.reverseRecOn with
  | nil => exact .inl h
  | append_singleton moves m ih =>
    rw [play_concat] at hunsent ⊢
    have hearlier : (start.play moves).state.handshakeSent = false := by
      by_contra hsent
      have hsent : (start.play moves).state.handshakeSent = true := by simpa using hsent
      rw [handshakeSent_move hsent m] at hunsent
      cases hunsent
    rcases move_steps (start.play moves) m with hsteps | ⟨infoHash, peerId, -, -, hsteps⟩
    · rcases ih hearlier with hsilent | ⟨frame, hknown, hleads⟩
      · exact hsilent.steps hX hY hsteps
      · exact .inr ⟨frame, hknown, hleads.steps hsteps⟩
    · have hsent := hsteps.keeps_greeting.1.trans (greet_ownHandshake _ infoHash peerId).1
      rw [hsent] at hunsent
      cases hunsent

/-- A run that does not hold back has a frame in front of all that it writes. -/
theorem exists_leadsWith_of_not_holdsBack (hstart : start.IsSilent)
    (h : ¬ HoldsBack start moves) :
    ∃ frame : Frame, frame.IsKnown ∧ (start.play moves).LeadsWith frame.encode := by
  rw [HoldsBack] at h
  push Not at h
  obtain ⟨before, ⟨later, rfl⟩, hunsent, hloud⟩ := h
  rcases hstart.play hX hY hunsent with hsilent | ⟨frame, hknown, hleads⟩
  · exact absurd hsilent hloud
  · refine ⟨frame, hknown, ?_⟩
    rw [play_append]
    exact hleads.play later

end Known

/-- In a run with the modules of this library, what is written begins with our own
handshake if and only if nothing is queued before the handshake is, or nothing was
written, or no more than what the length of a frame can share with a handshake. -/
theorem opensWithHandshake_iff_holdsBack (connected : Bool) (config : Config) (now : Nat)
    (moves : List (Move Empty Empty)) :
    let start : Connection Empty Empty := .new (.new connected) config now
    let final := start.play moves
    final.OpensWithHandshake ↔
      HoldsBack start moves ∨ final.transport.written = [] ∨
        final.state.handshakeSent = true ∧ final.transport.written <+: sharedOpening := by
  intro start final
  have hunsent : start.state.handshakeSent = false := rfl
  have hsilent : start.IsSilent := rfl
  have hknows : final.KnowsGreeting := by
    apply KnowsGreeting.play
    simp [KnowsGreeting, start, Connection.new, ConnectionState.standing,
      Standing.ownHandshake?, ConnectionState.initial]
  constructor
  · rintro (hnothing | ⟨handshake, rest, hown, hwritten⟩)
    · exact .inr (.inl hnothing)
    · by_cases hback : HoldsBack start moves
      · exact .inl hback
      · obtain ⟨frame, hknown, rest', hframe, -⟩ := exists_leadsWith_of_not_holdsBack
          Capability.queues_empty SubProtocol.queues_empty hsilent hback
        exact .inr (.inr ⟨hknows.mpr ⟨handshake, hown⟩,
          hknown.prefix_sharedOpening hframe hwritten⟩)
  · rintro (hback | hnothing | ⟨hsent, hshared⟩)
    · exact hback.opens hunsent
    · exact .inl hnothing
    · obtain ⟨handshake, hown⟩ := hknows.mp hsent
      exact .inr ⟨handshake, [], hown, hshared.trans (handshake.sharedOpening_prefix [])⟩

/-- A connection that greets before it does anything else holds back, and its
handshake is written. -/
theorem opensWithHandshake_iff_holdsBack_of_greeting :
    let start : Connection Empty Empty := .new (.new true) .standard 0
    let moves : List (Move Empty Empty) :=
      [.call 0 (.handshake "0000000000000000000000000000000000000000" (List.replicate 20 7)),
        .call 0 .process]
    HoldsBack start moves ∧ (start.play moves).transport.written.length = 68 := by
  intro start moves
  have hlength : (start.play moves).transport.written.length = 68 := by decide +kernel
  have hown : (start.play moves).state.standing.ownHandshake? =
      some ⟨.none, Vector.replicate 20 0, ⟨Vector.replicate 20 7⟩⟩ := by decide +kernel
  have hwritten : (start.play moves).transport.written =
      Handshake.encode ⟨.none, Vector.replicate 20 0, ⟨Vector.replicate 20 7⟩⟩ := by decide +kernel
  have hopens : (start.play moves).OpensWithHandshake :=
    .inr ⟨_, [], hown, hwritten ▸ List.prefix_append _ []⟩
  rcases (opensWithHandshake_iff_holdsBack true .standard 0 moves).mp hopens with
    hback | hnothing | ⟨-, hshared⟩
  · exact ⟨hback, hlength⟩
  · have hempty : (start.play moves).transport.written.length = 0 := congrArg List.length hnothing
    omega
  · have hshort : (start.play moves).transport.written.length ≤ 4 := hshared.length_le
    omega

/-- A peer that speaks first: it sends its handshake, and announces metadata of one
byte to a connection that wants to fetch them. -/
def eagerPeer : List (Move Empty Empty) :=
  [.call 0 (.addModule
      (.registry ⟨[⟨"ut_metadata", .metadata .fetching⟩], [], none, none, none⟩)),
    .stir (.feed [.data
      (Handshake.encode ⟨.none, Vector.replicate 20 0, ⟨Vector.replicate 20 0⟩⟩ ++
        (Message.extended 0
          (Bytes.ofText "d1:md11:ut_metadatai3ee13:metadata_sizei1ee")).encode)]),
    .call 0 .process]

/-- The request for the metadata is written, and there is no handshake of ours. -/
theorem not_opensWithHandshake_of_eagerPeer :
    ¬ ((new (.new true) .standard 0 : Connection Empty Empty).play
      eagerPeer).OpensWithHandshake := by
  have hwritten : ((new (.new true) .standard 0 : Connection Empty Empty).play
      eagerPeer).transport.written ≠ [] := by decide +kernel
  have hown : ((new (.new true) .standard 0 : Connection Empty Empty).play
      eagerPeer).state.standing.ownHandshake? = none := by decide +kernel
  rintro (hnothing | ⟨handshake, rest, hsome, -⟩)
  · exact hwritten hnothing
  · rw [hown] at hsome
    cases hsome

end Connection
end PeerLink
