import PeerLink.Proofs.Connection.Meeting
import PeerLink.Proofs.Connection.Posting
import PeerLink.Proofs.Module.AllowedFast
import PeerLink.Proofs.Module.FastExtension
import PeerLink.Proofs.Module.Offering
import PeerLink.Proofs.Wire.Codec

/-!
# Allowed pieces at both ends

A connection that grants pieces keeps which ones it allowed, and the peer keeps which ones
it was allowed.  The sets that are granted may overlap, but every piece is named once in a
run, when it is first granted.  Nothing else that happens to a connection touches the pieces
it allowed, until it is torn down.
-/

namespace PeerLink

/-! ## Granting -/

/-- The pieces that a call answers. -/
def Answer.pieces : Answer → List UInt32
  | .granted (.ok pieces) => pieces
  | _ => []

namespace FastExtension

/-- A grant allows the pieces that it answers, as far as they are new, and tells the peer
these. -/
theorem grant_allows {fast : FastExtension} (h : fast.allowedToPeer.Nodup)
    (state : ConnectionState) (host : Host) (pieceCount : UInt32) :
    let reply := fast.grant state host pieceCount
    ∃ fresh, reply.next.allowedToPeer = fast.allowedToPeer ++ fresh ∧
      fast.allowedToPeer ++ fresh =
        (fast.allowedToPeer ++ (Answer.granted reply.result).pieces).eraseDups ∧
      reply.output.frames = fresh.map fun piece => (Message.allowedFast piece).toFrame := by
  rw [grant]
  cases state.infoHash with
  | none =>
    refine ⟨[], (List.append_nil _).symm, ?_, rfl⟩
    change fast.allowedToPeer ++ [] = (fast.allowedToPeer ++ []).eraseDups
    rw [List.append_nil, eraseDups_of_nodup h]
  | some infoHash =>
    have hpieces := AllowedFast.nodup_generateWith Sha1.digest infoHash host pieceCount grantSize
    exact ⟨_, rfl, append_filter_eq_eraseDups h hpieces, rfl⟩

theorem allowedToPeer_onCommand (fast : FastExtension) (command : UInt8) (payload : Bytes) :
    (fast.onCommand command payload).next.allowedToPeer = fast.allowedToPeer := by
  rw [onCommand]
  split
  · rfl
  · rfl
  · next event _ =>
    change (fast.note event).allowedToPeer = fast.allowedToPeer
    rw [note_eq]

end FastExtension

/-! ## Hearing what was granted -/

/-- The command of a frame with its payload.  A keep-alive has none. -/
def Frame.command? : Frame → Option (UInt8 × Bytes)
  | .keepAlive => none
  | .message id _ payload => some (id, payload)

/-- The commands in a stream of bytes, with their payloads. -/
def Frame.commands (bytes : Bytes) : List (UInt8 × Bytes) :=
  (parseAll bytes).1.filterMap fun parsed => parsed.1.command?

theorem Frame.commands_allowedFast (pieces : List UInt32) :
    commands (pieces.map fun piece => (Message.allowedFast piece).encode).flatten =
      pieces.map fun piece => (17, Bytes.ofUInt32 piece) := by
  let frames : List Frame := pieces.map fun piece => (Message.allowedFast piece).toFrame
  have hvalid : ∀ frame ∈ frames, frame.IsValid := by
    intro frame hframe
    obtain ⟨piece, -, rfl⟩ := List.mem_map.mp hframe
    exact rfl
  have hbytes : (pieces.map fun piece => (Message.allowedFast piece).encode).flatten =
      frames.flatMap encode ++ [] := by
    rw [List.append_nil, List.flatMap_map]
    rfl
  have hnothing : IsFragment [] := isFragment_of_length_lt (by decide)
  have hparsed := parseAll_flatMap_encode_append hvalid hnothing
  rw [commands, hbytes, hparsed, List.filterMap_map, List.filterMap_map, ← List.filterMap_eq_map]
  rfl

namespace FastExtension

theorem told?_allowedFast (piece : UInt32) :
    told? (17, Bytes.ofUInt32 piece) = some (.allowedFast piece) := by
  have hlong : 4 ≤ (Bytes.ofUInt32 piece).length := Nat.le_refl 4
  have hread := pieceIndex_eq_wordAt hlong "allowed fast"
  rw [Inbound.pieceIndex_ofUInt32] at hread
  rw [told?, if_pos hlong, ← Except.ok.inj hread]

/-- A fast extension that hears of pieces in turn holds just these. -/
theorem allowedByPeer_serveAll {pieces : List UInt32} (h : pieces.Nodup) :
    (empty.serveAll (pieces.map fun piece => (17, Bytes.ofUInt32 piece))).1.allowedByPeer =
      pieces := by
  have hown : AreOwn (pieces.map fun piece => (17, Bytes.ofUInt32 piece)) := by
    intro command hcommand
    obtain ⟨piece, -, rfl⟩ := List.mem_map.mp hcommand
    change (13 : UInt8) ≤ 17 ∧ (17 : UInt8) ≤ 17
    decide
  have htold : (pieces.map fun piece => ((17, Bytes.ofUInt32 piece) : UInt8 × Bytes)).filterMap
      told? = pieces.map .allowedFast := by
    rw [List.filterMap_map, ← List.filterMap_eq_map]
    exact congrArg (List.filterMap · pieces) (funext told?_allowedFast)
  have hevents : (pieces.map Event.allowedFast).filterMap Event.allowed? = pieces := by
    rw [List.filterMap_map]
    exact List.filterMap_some
  rw [serveAll_eq empty hown, htold, (keeps_foldl_note _).allowedByPeer, hevents,
    eraseDups_of_nodup h]

end FastExtension

namespace AnyModule

variable {X Y : Type}

/-- The pieces that a fast extension allowed the peer. -/
def allowed? (m : AnyModule X Y) : Option (List UInt32) := m.asFast?.map (·.allowedToPeer)

/-- Granting is granting by the first fast extension. -/
theorem first?_viaFast? {α : Type} (act : FastExtension → Reply FastExtension α)
    {modules : List (AnyModule X Y)} {fast : FastExtension}
    (h : modules.findSome? asFast? = some fast) :
    ∃ next, Reply.first? (viaFast? act) modules =
        some ⟨(act fast).result, next, (act fast).output⟩ ∧
      next.findSome? asFast? = some (act fast).next := by
  induction modules with
  | nil => cases h
  | cons m rest ih =>
    cases m with
    | fast found =>
      obtain rfl := Option.some.inj h
      exact ⟨_, rfl, rfl⟩
    | registry registry =>
      obtain ⟨next, hnext, hfound⟩ := ih h
      refine ⟨.registry registry :: next, ?_, hfound⟩
      rw [Reply.first?, hnext]
      rfl
    | custom m =>
      obtain ⟨next, hnext, hfound⟩ := ih h
      refine ⟨.custom m :: next, ?_, hfound⟩
      rw [Reply.first?, hnext]
      rfl

variable [Capability X] [SubProtocol Y]

theorem allowed?_onHandshake (m : AnyModule X Y) (state : ConnectionState)
    (handshake : Handshake) :
    (Capability.onHandshake m state handshake).next.allowed? = m.allowed? := by
  cases m with
  | _ => rfl

theorem allowed?_onCommand (m : AnyModule X Y) (state : ConnectionState) (command : UInt8)
    (payload : Bytes) :
    (Capability.onCommand m state command payload).next.allowed? = m.allowed? := by
  cases m with
  | fast fast => exact congrArg some (fast.allowedToPeer_onCommand command payload)
  | registry registry => rfl
  | custom m => rfl

theorem map_allowed?_offer (state : ConnectionState) (command : UInt8) (payload : Bytes)
    (modules : List (AnyModule X Y)) :
    (Capability.offer state command payload modules).next.map allowed? =
      modules.map allowed? := by
  induction modules with
  | nil => rfl
  | cons m rest ih =>
    have hm := m.allowed?_onCommand state command payload
    rcases Capability.offer_cons_cases state command payload m rest with
      ⟨-, hnext, -⟩ | ⟨-, -, hnext, -⟩ | ⟨-, -, hnext, -⟩
    · rw [hnext, List.map_cons, List.map_cons, ih]
    · rw [hnext, List.map_cons, List.map_cons, hm]
    · rw [hnext, List.map_cons, List.map_cons, ih, hm]

end AnyModule

namespace Connection

variable {X Y : Type} {c d : Connection X Y}

/-! ## What leaves the allowed pieces alone -/

/-- From `c` to `d` no module allows the peer anything, or forgets that it did. -/
def KeepsAllowed (c d : Connection X Y) : Prop :=
  d.modules.map AnyModule.allowed? = c.modules.map AnyModule.allowed?

theorem KeepsAllowed.of_modules_eq (h : d.modules = c.modules) : KeepsAllowed c d :=
  congrArg (List.map AnyModule.allowed?) h

theorem map_allowedToPeer_fast? (c : Connection X Y) :
    c.fast?.map (·.allowedToPeer) = (c.modules.map AnyModule.allowed?).findSome? id := by
  have hfast : c.fast? = c.modules.findSome? AnyModule.asFast? := rfl
  rw [hfast, List.map_findSome?, List.findSome?_map]
  rfl

theorem KeepsAllowed.fast? (h : KeepsAllowed c d) :
    d.fast?.map (·.allowedToPeer) = c.fast?.map (·.allowedToPeer) := by
  rw [map_allowedToPeer_fast?, map_allowedToPeer_fast?, h]

theorem useRegistry?_keepsAllowed {α : Type}
    {act : ConnectionState → Registry Y → Reply (Registry Y) α}
    {used : Connection X Y × Except Failure α} (h : c.useRegistry? act = some used) :
    KeepsAllowed c used.1 := by
  obtain ⟨reply, hreply, hused⟩ := exists_settle_of_useModule? h
  rw [hused]
  refine Reply.map_next_first? ?_ hreply
  intro m reply hm
  cases m with
  | registry registry =>
    obtain rfl := Option.some.inj hm
    rfl
  | fast fast => cases hm
  | custom m => cases hm

theorem sendFromRegistry_keepsAllowed (c : Connection X Y) (name : String) (payload : Bytes) :
    KeepsAllowed c (c.answeredIfAny .outcome (c.sendFromRegistry? name payload)).1 := by
  cases hsent : c.sendFromRegistry? name payload with
  | none => exact .of_modules_eq rfl
  | some sent => exact useRegistry?_keepsAllowed hsent

theorem sendPeerExchange_keepsAllowed (c : Connection X Y) (message : PeerExchange) :
    KeepsAllowed c (c.answeredIfAny .outcome (c.sendPeerExchange? message)).1 := by
  cases hsent : c.sendPeerExchange? message with
  | none => exact .of_modules_eq rfl
  | some sent =>
    obtain ⟨result, hresult⟩ := exists_useRegistry?_of_useSub? hsent
    change KeepsAllowed c (sent.1, result).1
    exact useRegistry?_keepsAllowed hresult

theorem modules_send (c : Connection X Y) (now : Nat) (message : Message) :
    (c.send now message).1.modules = c.modules := by
  rw [send]
  split <;> rfl

theorem modules_sendAll (c : Connection X Y) (now : Nat) (messages : List Message) :
    (c.sendAll now messages).1.modules = c.modules := by
  induction messages generalizing c with
  | nil => rfl
  | cons message rest ih =>
    have hsend := modules_send c now message
    rw [sendAll]
    split
    · next d failure hd =>
      rw [hd] at hsend
      exact hsend
    · next d hd =>
      rw [hd] at hsend
      exact (ih d).trans hsend

theorem modules_sendBitfield (c : Connection X Y) (now : Nat) (pieces : Bitfield)
    (disguised : Bool) : (c.sendBitfield now pieces disguised).1.modules = c.modules := by
  rw [sendBitfield, sendBitfieldWith]
  split
  · exact modules_sendAll _ now _
  · exact modules_send c now _

variable [Capability X] [SubProtocol Y]

theorem PollStep.isUp (h : PollStep c d) : c.isDown = false := by
  cases h with
  | keepAlive now hup | receive hup | rebuffer buffer hup | acceptHandshake handshake hup
  | dispatch frame hup | flush hup | noteIdle received hup | teardown hup => exact hup

theorem dispatch_keepsAllowed (c : Connection X Y) (frame : Frame) :
    KeepsAllowed c (c.dispatch frame).1 := by
  cases frame with
  | keepAlive => exact .of_modules_eq rfl
  | message command length payload =>
    rw [dispatch]
    split
    · exact .of_modules_eq rfl
    · split
      · exact .of_modules_eq rfl
      · exact .of_modules_eq rfl
      · rw [offer, KeepsAllowed]
        split <;> exact AnyModule.map_allowed?_offer c.state command payload c.modules

theorem PollStep.keepsAllowed (h : PollStep c d) (hup : d.isDown = false) :
    KeepsAllowed c d := by
  cases h with
  | keepAlive now =>
    apply KeepsAllowed.of_modules_eq
    rw [Connection.keepAlive]
    split <;> rfl
  | receive | rebuffer | flush => exact .of_modules_eq rfl
  | acceptHandshake handshake =>
    apply KeepsAllowed.of_modules_eq
    rw [Connection.acceptHandshake]
    split <;> rfl
  | dispatch frame => exact dispatch_keepsAllowed c frame
  | noteIdle received =>
    apply KeepsAllowed.of_modules_eq
    rw [Connection.noteIdle]
    split <;> rfl
  | teardown =>
    rw [isDown_teardown] at hup
    cases hup

theorem PollSteps.keepsAllowed (h : PollSteps c d) (hup : d.isDown = false) :
    KeepsAllowed c d := by
  induction h with
  | refl => exact .of_modules_eq rfl
  | tail _ hstep ih => exact (hstep.keepsAllowed hup).trans (ih hstep.isUp)

theorem HandshakeOutcome.keepsAllowed (h : HandshakeOutcome c d) (hup : d.isDown = false) :
    KeepsAllowed c d := by
  cases h with
  | refused => exact .of_modules_eq rfl
  | introduced infoHash peerId =>
    exact Reply.map_next_each (fun m => m.allowed?_onHandshake _ _) c.modules
  | mismatch | failed =>
    rw [isDown_teardown] at hup
    cases hup

omit [Capability X] [SubProtocol Y] in
theorem connect_keepsAllowed (c : Connection X Y) : KeepsAllowed c c.connect.1 := by
  apply KeepsAllowed.of_modules_eq
  rw [connect]
  split
  · rfl
  · split <;> rfl

/-- The move is a grant. -/
def Grants : Move X Y → Prop
  | .call _ (.grantAllowedFast ..) => True
  | _ => False

/-- A module that is added stands behind those that are there. -/
theorem move_fast? {m : Move X Y} (hm : ¬ Grants m) (hup : (c.move m).isDown = false)
    {pieces : List UInt32} (h : c.fast?.map (·.allowedToPeer) = some pieces) :
    (c.move m).fast?.map (·.allowedToPeer) = some pieces := by
  have hkeeps : KeepsAllowed c (c.move m) →
      (c.move m).fast?.map (·.allowedToPeer) = some pieces := fun hkeeps => hkeeps.fast?.trans h
  cases m with
  | stir stimulus => exact hkeeps (.of_modules_eq rfl)
  | call now call =>
    cases call with
    | connect => exact hkeeps (connect_keepsAllowed c)
    | handshake infoHash peerId =>
      exact hkeeps ((handshake_outcome c infoHash peerId).keepsAllowed hup)
    | process => exact hkeeps ((process_pollSteps c now).keepsAllowed hup)
    | disconnect =>
      rw [move, perform, isDown_teardown] at hup
      cases hup
    | addModule added =>
      rw [map_allowedToPeer_fast?] at h ⊢
      rw [move, perform, answered, addModule]
      split
      · exact h
      · change ((c.modules ++ [added]).map AnyModule.allowed?).findSome? id = some pieces
        rw [List.map_append, List.findSome?_append, h]
        rfl
    | setPieceCount count => exact hkeeps (.of_modules_eq rfl)
    | nextEvent => exact hkeeps (.of_modules_eq rfl)
    | drainEvents => exact hkeeps (.of_modules_eq rfl)
    | send message => exact hkeeps (.of_modules_eq (modules_send c now message))
    | sendBitfield pieces disguised =>
      exact hkeeps (.of_modules_eq (modules_sendBitfield c now pieces disguised))
    | sendExtended name payload =>
      have hsent := sendFromRegistry_keepsAllowed c name payload
      apply hkeeps
      rw [move, perform, answered, sendExtended]
      split
      · exact .of_modules_eq rfl
      · split
        · next sent hsome =>
          rw [hsome] at hsent
          exact hsent
        · exact .of_modules_eq rfl
    | sendFromRegistry name payload => exact hkeeps (sendFromRegistry_keepsAllowed c name payload)
    | sendPeerExchange message => exact hkeeps (sendPeerExchange_keepsAllowed c message)
    | grantAllowedFast host pieceCount => exact absurd trivial hm

/-! ## Grants -/

/-- What a grant adds to the queue. -/
def queuedByGrant (c : Connection X Y) : Move X Y → List Bytes
  | .call now (.grantAllowedFast host pieceCount) =>
    (c.perform now (.grantAllowedFast host pieceCount)).1.outbox.pending.drop
      c.outbox.pending.length
  | _ => []

/-- The pieces that a grant answers. -/
def granted (c : Connection X Y) : Move X Y → List UInt32
  | .call now (.grantAllowedFast host pieceCount) =>
    (c.perform now (.grantAllowedFast host pieceCount)).2.pieces
  | _ => []

omit [Capability X] [SubProtocol Y] in
theorem grantAllowedFast?_of_fast? {fast : FastExtension} (h : c.fast? = some fast) (host : Host)
    (pieceCount : UInt32) :
    let reply := fast.grant c.state host pieceCount
    ∃ next, next.findSome? AnyModule.asFast? = some reply.next ∧
      c.grantAllowedFast? host pieceCount =
        some ({ c with modules := next, outbox := c.outbox.add reply.output }, reply.result) := by
  intro reply
  let grant : FastExtension → Reply FastExtension (List UInt32) :=
    fun fast => fast.grant c.state host pieceCount
  have hgrant : c.grantAllowedFast? host pieceCount =
      (Reply.first? (AnyModule.viaFast? grant) c.modules).map
        fun reply => (c.settle reply, reply.result) := rfl
  obtain ⟨next, hnext, hfast⟩ := AnyModule.first?_viaFast? grant h
  refine ⟨next, hfast, ?_⟩
  rw [hgrant, hnext]
  rfl

theorem move_of_grant {fast : FastExtension} (h : c.fast? = some fast)
    (hdistinct : fast.allowedToPeer.Nodup) {m : Move X Y} (hm : Grants m) :
    ∃ fresh, (c.move m).fast?.map (·.allowedToPeer) = some (fast.allowedToPeer ++ fresh) ∧
      fast.allowedToPeer ++ fresh = (fast.allowedToPeer ++ c.granted m).eraseDups ∧
      c.queuedByGrant m = fresh.map fun piece => (Message.allowedFast piece).encode := by
  cases m with
  | stir stimulus => cases hm
  | call now call =>
    cases call with
    | grantAllowedFast host pieceCount =>
      obtain ⟨next, hnext, hgranted⟩ := grantAllowedFast?_of_fast? h host pieceCount
      obtain ⟨fresh, hallowed, hfresh, hframes⟩ :=
        FastExtension.grant_allows hdistinct c.state host pieceCount
      refine ⟨fresh, ?_, ?_, ?_⟩
      · rw [move, perform, hgranted, ← hallowed]
        exact congrArg (Option.map (·.allowedToPeer)) hnext
      · rw [granted, perform, hgranted]
        exact hfresh
      · rw [queuedByGrant, perform, hgranted]
        change (c.outbox.pending ++ _).drop c.outbox.pending.length = _
        rw [List.drop_left, hframes, List.map_map]
        rfl
    | _ => cases hm

theorem pending_of_grant (c : Connection X Y) {m : Move X Y} (hm : Grants m) :
    (c.move m).outbox.pending = c.outbox.pending ++ c.queuedByGrant m := by
  cases m with
  | stir stimulus => cases hm
  | call now call =>
    cases call with
    | grantAllowedFast host pieceCount =>
      have hposts := c.grantAllowedFast_posts host pieceCount
      rw [queuedByGrant, perform, hposts.pending, List.drop_left]
      exact hposts.pending
    | _ => cases hm

theorem isDown_of_grant (c : Connection X Y) {m : Move X Y} (hm : Grants m) :
    (c.move m).isDown = c.isDown := by
  cases m with
  | stir stimulus => cases hm
  | call now call =>
    cases call with
    | grantAllowedFast host pieceCount =>
      exact isDown_eq_of_standing
        (perform_sendSteps c now (.grantAllowedFast host pieceCount) trivial).standing_eq
    | _ => cases hm

theorem granted_of_not_grants (c : Connection X Y) {m : Move X Y} (hm : ¬ Grants m) :
    c.granted m = [] ∧ c.queuedByGrant m = [] := by
  cases m with
  | stir stimulus => exact ⟨rfl, rfl⟩
  | call now call =>
    cases call with
    | grantAllowedFast host pieceCount => exact absurd trivial hm
    | _ => exact ⟨rfl, rfl⟩

/-- While the connection is up, the pieces that it allowed are those that grants answered, in
order of first occurrence, and grants queued one message for each. -/
theorem play_allows {fast : FastExtension} (h : c.fast? = some fast)
    (hnone : fast.allowedToPeer = []) {moves : List (Move X Y)}
    (hup : (c.play moves).isDown = false) :
    ∃ last, (c.play moves).fast? = some last ∧
      last.allowedToPeer = (along granted c moves).eraseDups ∧
      along queuedByGrant c moves =
        last.allowedToPeer.map fun piece => (Message.allowedFast piece).encode := by
  induction moves using List.reverseRecOn with
  | nil =>
    refine ⟨fast, h, ?_, ?_⟩
    · rw [hnone, along_nil, List.eraseDups_nil]
    · rw [hnone, along_nil, List.map_nil]
  | append_singleton moves m ih =>
    rw [play_concat] at hup ⊢
    rw [along_concat, along_concat]
    obtain ⟨last, hlast, hallowed, hqueued⟩ := ih (isDown_of_move hup)
    -- A grant adds what is new, and any other move that leaves the connection up adds nothing.
    by_cases hm : Grants m
    · have hdistinct : last.allowedToPeer.Nodup := hallowed ▸ nodup_eraseDups _
      obtain ⟨fresh, hmoved, hfresh, hmore⟩ := move_of_grant hlast hdistinct hm
      obtain ⟨next, hnext, hpieces⟩ := Option.map_eq_some_iff.mp hmoved
      refine ⟨next, hnext, ?_, ?_⟩
      · rw [hpieces, hfresh, hallowed, eraseDups_eraseDups_append]
      · rw [hpieces, hqueued, hmore, List.map_append]
    · have hbefore : (c.play moves).fast?.map (·.allowedToPeer) = some last.allowedToPeer := by
        rw [hlast, Option.map_some]
      have hstill := move_fast? hm hup hbefore
      obtain ⟨next, hnext, hpieces⟩ := Option.map_eq_some_iff.mp hstill
      obtain ⟨hgranted, hmore⟩ := granted_of_not_grants (c.play moves) hm
      refine ⟨next, hnext, ?_, ?_⟩
      · rw [hpieces, hallowed, hgranted, List.append_nil]
      · rw [hpieces, hqueued, hmore, List.append_nil]

/-- Grants only add to the queue, and leave a connection up.  While it is up, whatever else
happens to it, they name every piece that it allowed once, in the order in which the pieces
were first granted, and a fast extension that hears them holds the same pieces.

The fast extension queues one event for every command of its own that is long enough, and
the others change nothing.  It keeps the distinct pieces that were suggested and allowed, in
order of first occurrence, and which of all and none was announced last. -/
theorem fast_extensions_agree :
    (∀ (c : Connection X Y) (m : Move X Y), Grants m → (c.move m).isDown = c.isDown ∧
      (c.move m).outbox.pending = c.outbox.pending ++ c.queuedByGrant m) ∧
    (∀ (c : Connection X Y) (fast : FastExtension) (moves : List (Move X Y)),
      c.fast? = some fast → fast.allowedToPeer = [] → (c.play moves).isDown = false →
      ∃ last, (c.play moves).fast? = some last ∧
        last.allowedToPeer.Nodup ∧
        last.allowedToPeer = (along granted c moves).eraseDups ∧
        along queuedByGrant c moves =
          last.allowedToPeer.map (fun piece => (Message.allowedFast piece).encode) ∧
        let heard := Frame.commands (along queuedByGrant c moves).flatten
        (FastExtension.empty.serveAll heard).1.allowedByPeer = last.allowedToPeer) ∧
    (∀ (fast : FastExtension) (command : UInt8) (payload : Bytes), 13 ≤ command → command ≤ 17 →
      (∃ event, FastExtension.told? (command, payload) = some event ∧
        fast.onCommand command payload = .ok (fast.note event) true (.ofEvent event)) ∨
      ∃ what needed, FastExtension.told? (command, payload) = none ∧ payload.length < needed ∧
        fast.onCommand command payload =
          .fail fast (.malformedPayload (.tooShort what needed payload.length)) .none) ∧
    ∀ commands, FastExtension.AreOwn commands →
      let events := commands.filterMap FastExtension.told?
      let served := FastExtension.empty.serveAll commands
      served.2 = ⟨[], events, []⟩ ∧ served.1.Keeps events ∧
        ¬ (served.1.peerHasAll = true ∧ served.1.peerHasNone = true) := by
  refine ⟨fun c m hm => ⟨c.isDown_of_grant hm, c.pending_of_grant hm⟩, ?_, ?_, ?_⟩
  · intro c fast moves hfast hnone hup
    obtain ⟨last, hlast, hallowed, hqueued⟩ := play_allows hfast hnone hup
    have hdistinct : last.allowedToPeer.Nodup := hallowed ▸ nodup_eraseDups _
    refine ⟨last, hlast, hdistinct, hallowed, hqueued, ?_⟩
    rw [hqueued, Frame.commands_allowedFast]
    exact FastExtension.allowedByPeer_serveAll hdistinct
  · exact fun fast command payload hfirst hlast => fast.onCommand_cases hfirst hlast payload
  · intro commands hown events served
    have hserved := FastExtension.serveAll_eq .empty hown
    have hnoted := FastExtension.keeps_foldl_note events
    have hkeeps : served.1.Keeps events := congrArg Prod.fst hserved ▸ hnoted
    refine ⟨congrArg Prod.snd hserved, hkeeps, ?_⟩
    rintro ⟨hall, hnone⟩
    rw [hkeeps.peerHasAll] at hall
    rw [hkeeps.peerHasNone, hall] at hnone
    cases hnone

/-- Three grants of eight pieces in all, some of them in turn, name four pieces. -/
theorem fast_extensions_agree_of_overlapping :
    let start : Connection Empty Empty :=
      (new (.new true) .standard 0 : Connection Empty Empty).play
        [.call 0 (.addModule (.fast .empty))]
    let moves : List (Move Empty Empty) := [
      .call 0 (.handshake "aaaaaaaaaaaaaaaaaaaaaaaaaaaaaaaaaaaaaaaa" (List.replicate 20 7)),
      .call 1 (.grantAllowedFast (.v4 #v[80, 4, 4, 200]) 2), .call 2 .process,
      .call 3 (.grantAllowedFast (.v4 #v[80, 4, 5, 200]) 4),
      .call 4 (.grantAllowedFast (.v4 #v[80, 4, 4, 7]) 2)]
    start.fast? = some .empty ∧ (start.play moves).isDown = false ∧
      ∃ last, (start.play moves).fast? = some last ∧ last.allowedToPeer = [1, 0, 2, 3] ∧
        let heard := Frame.commands (along queuedByGrant start moves).flatten
        (FastExtension.empty.serveAll heard).1.allowedByPeer = [1, 0, 2, 3] := by
  intro start moves
  have hfast : start.fast? = some .empty := by decide +kernel
  have hup : (start.play moves).isDown = false := by decide +kernel
  obtain ⟨-, hruns, -, -⟩ := fast_extensions_agree (X := Empty) (Y := Empty)
  obtain ⟨last, hlast, -, hallowed, -, hheard⟩ := hruns start .empty moves hfast rfl hup
  have hgranted : along granted start moves = [1, 0, 2, 0, 1, 3, 1, 0] := by decide +kernel
  have hpieces : last.allowedToPeer = [1, 0, 2, 3] := by
    rw [hallowed, hgranted]
    decide
  exact ⟨hfast, hup, last, hlast, hpieces, hheard.trans hpieces⟩

end Connection
end PeerLink
