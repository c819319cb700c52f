import Mathlib.Data.List.Induction
import PeerLink.Proofs.Connection.Step
import PeerLink.Proofs.Module.Output

/-!
# From the queue to the wire

What a connection has written and what it will write are one stream of bytes,
`Connection.outgoing`.  A step appends whole frames to this stream, or moves
bytes of it from the queue to the wire, or tears the connection down, which
drops what is still queued.  The steps are sorted into these kinds once, in
`Step.wireEffect`, for frames that satisfy a predicate `P`.
-/

namespace PeerLink

/-! ## Writing -/

namespace Transport

/-- Writing a frame splits it into what was accepted and what is left. -/
theorem writeFrame_accepted_append_pending (frame : Bytes) (writes : List WriteAnswer) :
    (writeFrame frame writes).accepted ++ (writeFrame frame writes).pending.flatten = frame := by
  fun_induction writeFrame frame writes with
  | case1 frame h => simp
  | case2 frame h => simp
  | case3 frame rest => simp
  | case4 frame rest ih => exact ih
  | case5 frame fault rest _ _ => simp
  | case6 frame count rest _ => simp
  | case7 frame count rest _ _ => simp
  | case8 frame count rest _ _ later ih =>
    calc
      (frame.take count ++ later.accepted) ++ later.pending.flatten =
          frame.take count ++ (later.accepted ++ later.pending.flatten) := List.append_assoc ..
      _ = frame.take count ++ frame.drop count := by rw [ih]
      _ = frame := List.take_append_drop count frame

theorem writeAll_accepted_append_pending (writes : List WriteAnswer) (frames : List Bytes) :
    (writeAll writes frames).accepted ++ (writeAll writes frames).pending.flatten =
      frames.flatten := by
  induction frames generalizing writes with
  | nil => rfl
  | cons frame rest ih =>
    have hframe := writeFrame_accepted_append_pending frame writes
    rw [writeAll]
    split
    · next hdone =>
      have hdone : (writeFrame frame writes).pending = [] := by simpa using hdone
      have hframe : (writeFrame frame writes).accepted = frame := by simpa [hdone] using hframe
      simp [hframe, List.append_assoc, ih]
    · rw [List.flatten_cons, List.flatten_append, ← List.append_assoc, hframe]

/-- What is left of a frame is not empty. -/
theorem ne_nil_of_mem_writeFrame {frame : Bytes} (h : frame ≠ []) (writes : List WriteAnswer) :
    ∀ bytes ∈ (writeFrame frame writes).pending, bytes ≠ [] := by
  fun_induction writeFrame frame writes with
  | case1 frame hempty => exact List.forall_mem_singleton.mpr h
  | case2 frame hfull => exact List.forall_mem_nil _
  | case3 frame rest => exact List.forall_mem_singleton.mpr h
  | case4 frame rest ih => exact ih h
  | case5 frame fault rest _ _ => exact List.forall_mem_singleton.mpr h
  | case6 frame count rest _ => exact List.forall_mem_singleton.mpr h
  | case7 frame count rest _ _ => exact List.forall_mem_nil _
  | case8 frame count rest _ hlong later ih =>
    have hleft : frame.drop count ≠ [] := by
      rw [ne_eq, List.drop_eq_nil_iff]
      exact hlong
    exact ih hleft

theorem ne_nil_of_mem_writeAll {frames : List Bytes} (h : ∀ frame ∈ frames, frame ≠ [])
    (writes : List WriteAnswer) : ∀ bytes ∈ (writeAll writes frames).pending, bytes ≠ [] := by
  induction frames generalizing writes with
  | nil => exact List.forall_mem_nil _
  | cons frame rest ih =>
    obtain ⟨hframe, hrest⟩ := List.forall_mem_cons.mp h
    rw [writeAll]
    split
    · exact ih hrest _
    · intro bytes hbytes
      rcases List.mem_append.mp hbytes with hleft | hlater
      · exact ne_nil_of_mem_writeFrame hframe writes bytes hleft
      · exact hrest bytes hlater

end Transport

theorem Handshake.encode_ne_nil (handshake : Handshake) : handshake.encode ≠ [] := by
  simp [encode, opening]

theorem Frame.encode_ne_nil (frame : Frame) : frame.encode ≠ [] := by
  cases frame <;> simp [encode, Bytes.ofUInt32]

namespace Connection

variable {X Y : Type} {P : Frame → Prop}

/-- What was written, and behind it what is queued. -/
def outgoing (c : Connection X Y) : Bytes := c.transport.written ++ c.outbox.pending.flatten

/-- Something is left of every frame that is queued. -/
def IsFramed (c : Connection X Y) : Prop := ∀ bytes ∈ c.outbox.pending, bytes ≠ []

/-- What can happen to the stream of outgoing bytes: frames that satisfy `P` are
queued, bytes are written, or what is queued is dropped with the connection. -/
inductive WireEffect (P : Frame → Prop) (c d : Connection X Y) : Prop where
  | queued (frames : List Frame) (hframes : ∀ frame ∈ frames, P frame)
      (hpending : d.outbox.pending = c.outbox.pending ++ frames.map Frame.encode)
      (hwritten : d.transport.written = c.transport.written) (hdown : d.isDown = c.isDown)
  | flushed (accepted : Bytes) (hup : c.isDown = false)
      (hwritten : d.transport.written = c.transport.written ++ accepted)
      (hpending : accepted ++ d.outbox.pending.flatten = c.outbox.pending.flatten)
      (hframed : c.IsFramed → d.IsFramed) (hdown : d.isDown = false)
  | dropped (hup : c.isDown = false) (hpending : d.outbox.pending = [])
      (hwritten : d.transport.written = c.transport.written) (hdown : d.isDown = true)

namespace WireEffect

variable {c d : Connection X Y}

theorem silent (hpending : d.outbox.pending = c.outbox.pending)
    (hwritten : d.transport.written = c.transport.written) (hdown : d.isDown = c.isDown) :
    WireEffect P c d :=
  .queued [] (by simp) (by simpa using hpending) hwritten hdown

theorem settle {α : Type} {reply : Reply (List (AnyModule X Y)) α}
    (h : reply.output.Within P) : WireEffect P c (c.settle reply) :=
  .queued reply.output.frames h rfl rfl rfl

end WireEffect

variable {c d : Connection X Y}

/-! ## The effect of every operation -/

theorem keepAlive_wireEffect (hP : P .keepAlive) (c : Connection X Y) (now : Nat) :
    WireEffect P c (c.keepAlive now) := by
  rw [keepAlive]
  split
  · exact .queued [.keepAlive] (by simpa using hP) rfl rfl rfl
  · exact .silent rfl rfl rfl

theorem noteIdle_wireEffect (c : Connection X Y) (received : Nat) :
    WireEffect P c (c.noteIdle received) := by
  rw [noteIdle]
  split <;> exact .silent rfl rfl rfl

theorem flush_wireEffect (hup : c.isDown = false) : WireEffect P c c.flush.1 :=
  .flushed _ hup rfl (Transport.writeAll_accepted_append_pending _ _)
    (fun hframed => Transport.ne_nil_of_mem_writeAll hframed _) hup

theorem acceptHandshake_wireEffect (hup : c.isDown = false) (handshake : Handshake) :
    WireEffect P c (c.acceptHandshake handshake).1 := by
  refine .silent ?_ ?_ ((acceptHandshake_isDown hup handshake).trans hup.symm)
  all_goals
    rw [acceptHandshake]
    split <;> rfl

theorem send_wireEffect {message : Message} (hP : P message.toFrame) (hup : c.isDown = false)
    (now : Nat) : WireEffect P c (c.send now message).1 := by
  have hdown := isDown_eq_of_standing (standing_send c now message)
  have hlive : ¬ c.isDown = true := by simp [hup]
  rw [send, if_neg hlive] at hdown ⊢
  exact .queued [message.toFrame] (by simpa using hP) rfl rfl hdown

theorem useModule?_wireEffect {α : Type}
    {act : ConnectionState → AnyModule X Y → Option (Reply (AnyModule X Y) α)}
    {used : Connection X Y × Except Failure α} (h : c.useModule? act = some used)
    (hact : ∀ m reply, act c.state m = some reply → reply.output.Within P) :
    WireEffect P c used.1 := by
  obtain ⟨reply, hreply, hused⟩ := exists_settle_of_useModule? h
  rw [hused]
  exact WireEffect.settle (Reply.output_first? hact hreply)

theorem useRegistry?_wireEffect {α : Type}
    {act : ConnectionState → Registry Y → Reply (Registry Y) α}
    {used : Connection X Y × Except Failure α} (h : c.useRegistry? act = some used)
    (hact : ∀ registry, (act c.state registry).output.Within P) : WireEffect P c used.1 := by
  refine useModule?_wireEffect h ?_
  intro m reply hreply
  cases m with
  | registry registry =>
    obtain rfl := Option.some.inj hreply
    exact hact registry
  | fast fast => cases hreply
  | custom m => cases hreply

theorem useSub?_wireEffect {α : Type}
    {act : SubContext → AnySubProtocol Y → Option (Reply (AnySubProtocol Y) α)}
    {used : Connection X Y × Except Failure α} (h : c.useSub? act = some used)
    (hact : ∀ context sub reply, act context sub = some reply → reply.output.Within P) :
    WireEffect P c used.1 := by
  obtain ⟨result, hresult⟩ := exists_useRegistry?_of_useSub? h
  change WireEffect P c (used.1, result).1
  refine useRegistry?_wireEffect hresult ?_
  intro registry
  split
  · next reply hreply =>
    obtain ⟨subs, hsubs, rfl⟩ := Option.map_eq_some_iff.mp hreply
    refine Reply.output_first? (fun sub renewed hrenewed => ?_) hsubs
    obtain ⟨used, hused, rfl⟩ := Option.map_eq_some_iff.mp hrenewed
    exact hact _ _ used hused
  · exact List.forall_mem_nil _

variable [Capability X] [SubProtocol Y]

theorem teardown_wireEffect (hup : c.isDown = false) : WireEffect P c c.teardown := by
  rw [teardown, hup]
  exact .dropped hup rfl rfl rfl

section Frames

variable (hP : ∀ message : Message, P message.toFrame)
  (hX : Capability.Queues (Output.Within P) X) (hY : SubProtocol.Queues (Output.Within P) Y)
include hP hX hY

theorem offer_wireEffect (c : Connection X Y) (command : UInt8) (payload : Bytes) :
    WireEffect P c (c.offer command payload).1 := by
  have hP := Output.admits_within fun message _ => hP message
  have hreply := (AnyModule.queues hP hX hY).offer hP.toAdmitsMessages c.state command payload
    c.modules
  refine .queued _ hreply ?_ ?_ (isDown_eq_of_standing (standing_offer c command payload))
  all_goals
    rw [offer]
    split <;> rfl

theorem dispatch_wireEffect (c : Connection X Y) (frame : Frame) :
    WireEffect P c (c.dispatch frame).1 := by
  have htell : ∀ event, WireEffect P c (c.tell event) := by
    intro event
    exact .silent rfl rfl (isDown_eq_of_standing (ConnectionState.standing_observe c.state event))
  cases frame with
  | keepAlive => exact htell _
  | message command length payload =>
    rw [dispatch]
    split
    · exact htell _
    · split
      · exact htell _
      · exact .silent rfl rfl rfl
      · exact offer_wireEffect hP hX hY c command payload

theorem OwnerStep.wireEffect (h : OwnerStep c d) : WireEffect P c d := by
  have hadmits := Output.admits_within fun message _ => hP message
  have hmessages := hadmits.toAdmitsMessages
  cases h with
  | useTransport transport hwritten => exact .silent rfl hwritten rfl
  | opened hup => exact .silent rfl rfl hup.symm
  | addModule m hsent => exact .silent rfl rfl rfl
  | setPieceCount count => exact .silent rfl rfl rfl
  | takeEvents events hevents => exact .silent rfl rfl rfl
  | pick picker => exact .silent rfl rfl rfl
  | send now message hup => exact send_wireEffect (hP message) hup now
  | sendFromRegistry hsent =>
    refine useRegistry?_wireEffect hsent ?_
    intro registry
    exact SubContext.output_send hmessages _ _ _
  | sendPeerExchange hsent =>
    refine useSub?_wireEffect hsent ?_
    intro context sub reply hreply
    exact AnySubProtocol.output_exchange? hmessages hreply
  | grantAllowedFast hgranted =>
    refine useModule?_wireEffect hgranted ?_
    intro m reply hreply
    cases m with
    | fast fast =>
      obtain rfl := Option.some.inj hreply
      exact FastExtension.output_grant hmessages fast c.state _ _
    | registry registry => cases hreply
    | custom m => cases hreply
  | introduce handshake hup hsent =>
    apply WireEffect.settle
    apply Reply.output_each hmessages
    intro m
    exact (AnyModule.queues hadmits hX hY).onHandshake m c.state handshake
  | teardown hup => exact teardown_wireEffect hup

theorem PollStep.wireEffect (h : PollStep c d) : WireEffect P c d := by
  cases h with
  | keepAlive now hup => exact keepAlive_wireEffect (hP .keepAlive) c now
  | receive hup => exact .silent rfl rfl rfl
  | rebuffer buffer hup => exact .silent rfl rfl rfl
  | acceptHandshake handshake hup hreceived => exact acceptHandshake_wireEffect hup handshake
  | dispatch frame hup hreceived => exact dispatch_wireEffect hP hX hY c frame
  | flush hup => exact flush_wireEffect hup
  | noteIdle received hup => exact noteIdle_wireEffect c received
  | teardown hup => exact teardown_wireEffect hup

/-- What a step does to the stream of outgoing bytes. -/
theorem Step.wireEffect (h : Step c d) : WireEffect P c d := by
  rcases h with howner | hpoll
  · exact howner.wireEffect hP hX hY
  · exact hpoll.wireEffect hP hX hY

end Frames

/-- What every step keeps by what it does to the stream, all steps in a row keep. -/
theorem Steps.keeps {p : Connection X Y → Prop}
    (hp : ∀ {c d : Connection X Y}, WireEffect (fun _ => True) c d → p c → p d)
    (hsteps : Steps c d) (h : p c) : p d := by
  induction hsteps with
  | refl => exact h
  | tail _ hstep ih =>
    exact hp (hstep.wireEffect (fun _ => trivial) Capability.queues_anything
      SubProtocol.queues_anything) ih

/-! ## What is queued -/

omit [Capability X] [SubProtocol Y] in
theorem IsFramed.wireEffect (h : c.IsFramed) (heffect : WireEffect P c d) : d.IsFramed := by
  cases heffect with
  | queued frames _ hpending _ _ =>
    intro bytes hbytes
    rw [hpending] at hbytes
    rcases List.mem_append.mp hbytes with hearlier | hlater
    · exact h bytes hearlier
    · obtain ⟨frame, -, rfl⟩ := List.mem_map.mp hlater
      exact frame.encode_ne_nil
  | flushed _ _ _ _ hframed _ => exact hframed h
  | dropped _ hpending _ _ =>
    rw [IsFramed, hpending]
    exact List.forall_mem_nil _

theorem IsFramed.steps (h : c.IsFramed) (hsteps : Steps c d) : d.IsFramed :=
  hsteps.keeps (fun heffect hc => hc.wireEffect heffect) h

theorem IsFramed.play (h : c.IsFramed) (moves : List (Move X Y)) : (c.play moves).IsFramed := by
  induction moves using List.reverseRecOn with
  | nil => exact h
  | append_singleton moves m ih =>
    rw [play_concat]
    rcases move_steps (c.play moves) m with hsteps | ⟨infoHash, peerId, -, -, hsteps⟩
    · exact ih.steps hsteps
    · have hgreeted : ((c.play moves).greet infoHash peerId).IsFramed := by
        intro bytes hbytes
        rcases List.mem_append.mp hbytes with hearlier | hown
        · exact ih bytes hearlier
        · obtain rfl := List.mem_singleton.mp hown
          exact Handshake.encode_ne_nil _
      exact hgreeted.steps hsteps

/-! ## What the wire begins with -/

omit [Capability X] [SubProtocol Y]

/-- The bytes that are written, and as long as the connection is up also those that
are queued behind them, begin as `bytes` do and go on behind all of them. -/
def LeadsWith (c : Connection X Y) (bytes : Bytes) : Prop :=
  ∃ rest, c.transport.written <+: bytes ++ rest ∧
    (c.isDown = false → c.outgoing = bytes ++ rest)

theorem leadsWith_of_outgoing {bytes rest : Bytes} (h : c.outgoing = bytes ++ rest) :
    c.LeadsWith bytes :=
  ⟨rest, h ▸ List.prefix_append _ _, fun _ => h⟩

theorem LeadsWith.wireEffect {bytes : Bytes} (h : c.LeadsWith bytes)
    (heffect : WireEffect P c d) : d.LeadsWith bytes := by
  obtain ⟨rest, hwritten, houtgoing⟩ := h
  cases heffect with
  | queued frames hframes hpending hsame hdown =>
    refine ⟨rest ++ (frames.map Frame.encode).flatten, ?_, ?_⟩
    · rw [hsame, ← List.append_assoc]
      exact hwritten.trans (List.prefix_append _ _)
    · intro hup
      rw [outgoing, hsame, hpending, List.flatten_append, ← List.append_assoc,
        ← List.append_assoc]
      exact congrArg (· ++ _) (houtgoing (hdown ▸ hup))
  | flushed accepted hup hmore hpending _ hdown =>
    have hstream : d.outgoing = bytes ++ rest := by
      rw [← houtgoing hup, outgoing, outgoing, hmore, List.append_assoc, hpending]
    exact leadsWith_of_outgoing hstream
  | dropped hup hpending hsame hdown =>
    refine ⟨rest, hsame ▸ hwritten, ?_⟩
    intro hlive
    simp [hlive] at hdown

end Connection
end PeerLink
