import PeerLink.Proofs.Connection.Carrying
import PeerLink.Proofs.Connection.Standing

/-!
# The messages that calls send

Which messages a call sends can be read off the connection that it is made on.  The call
queues just these, in order, and notes in the record what they change on our side.
-/

namespace PeerLink

theorem ConnectionState.noteSent_of_isOfModule {message : Message} (h : message.IsOfModule)
    (state : ConnectionState) : state.noteSent message = state := by
  cases message with
  | extended id payload => rfl
  | allowedFast index => rfl
  | _ => exact h.elim

namespace Connection

variable {X Y : Type} {c d e : Connection X Y}

/-- The messages that announce our pieces, disguised or not. -/
def announcement (c : Connection X Y) (pieces : Bitfield) (disguised : Bool) : List Message :=
  if disguised && undisguisedSize < pieces.size then
    disguise pieces (c.config.sample pieces.size c.picker (min disguiseSize pieces.size)).1
  else [.bitfield pieces.toBytes]

/-- The message that carries a payload to the peer's side of a sub-protocol.  There is
none unless the peer gave the sub-protocol an id. -/
def extended (c : Connection X Y) (name : String) (payload : Bytes) : List Message :=
  ((c.registry?.bind (·.incomingId? name)).map (Message.extended · payload)).toList

/-- The messages that a call sends, in order.  A connection that is down takes none,
except by way of a module. -/
def messages (c : Connection X Y) : Call X Y → List Message
  | .send message => if c.isDown then [] else [message]
  | .sendBitfield pieces disguised =>
    if c.isDown then [] else c.announcement pieces disguised
  | .sendExtended name payload => if c.isDown then [] else c.extended name payload
  | .sendFromRegistry name payload => c.extended name payload
  | .sendPeerExchange message =>
    if message.isEmpty then []
    else ((c.peerExchange?.bind Prod.snd).map (Message.extended · message.encode)).toList
  | .grantAllowedFast host pieceCount =>
    match c.fast?, c.state.infoHash with
    | some fast, some infoHash => fast.allowances infoHash host pieceCount
    | _, _ => []
  | _ => []

/-- From `c` to `d` just these messages are queued and noted. -/
structure Posts (c : Connection X Y) (messages : List Message) (d : Connection X Y) : Prop where
  pending : d.outbox.pending = c.outbox.pending ++ messages.map Message.encode
  state : d.state = messages.foldl ConnectionState.noteSent c.state
  transport : d.transport = c.transport

namespace Posts

variable {first second : List Message}

theorem nothing (hpending : d.outbox.pending = c.outbox.pending) (hstate : d.state = c.state)
    (htransport : d.transport = c.transport) : Posts c [] d :=
  ⟨hpending.trans (List.append_nil _).symm, hstate, htransport⟩

theorem trans (h : Posts c first d) (h' : Posts d second e) : Posts c (first ++ second) e := by
  refine ⟨?_, ?_, h'.transport.trans h.transport⟩
  · rw [h'.pending, h.pending, List.map_append, List.append_assoc]
  · rw [h'.state, h.state, List.foldl_append]

end Posts

theorem settle_posts {α : Type} {reply : Reply (List (AnyModule X Y)) α} {sent : List Message}
    (hframes : reply.output.frames = sent.map Message.toFrame)
    (hsent : ∀ message ∈ sent, message.IsOfModule) : Posts c sent (c.settle reply) := by
  refine ⟨?_, ?_, rfl⟩
  · change c.outbox.pending ++ reply.output.frames.map Frame.encode = _
    rw [hframes, List.map_map]
    rfl
  · clear hframes
    induction sent with
    | nil => rfl
    | cons message rest ih =>
      obtain ⟨hmessage, hrest⟩ := List.forall_mem_cons.mp hsent
      rw [List.foldl_cons, ConnectionState.noteSent_of_isOfModule hmessage]
      exact ih hrest

/-! ## Messages of our own -/

theorem send_posts (c : Connection X Y) (now : Nat) (message : Message) :
    Posts c (if c.isDown then [] else [message]) (c.send now message).1 := by
  rw [send]
  by_cases hdown : c.isDown = true
  · rw [if_pos hdown, if_pos hdown]
    exact .nothing rfl rfl rfl
  · rw [if_neg hdown, if_neg hdown]
    exact ⟨rfl, rfl, rfl⟩

theorem sendAll_posts (c : Connection X Y) (now : Nat) (messages : List Message) :
    Posts c (if c.isDown then [] else messages) (c.sendAll now messages).1 := by
  induction messages generalizing c with
  | nil =>
    rw [ite_self]
    exact .nothing rfl rfl rfl
  | cons message rest ih =>
    have hsend := send_posts c now message
    have hsame := isDown_eq_of_standing (standing_send c now message)
    by_cases hdown : c.isDown = true
    · rw [sendAll, send, if_pos hdown, if_pos hdown]
      exact .nothing rfl rfl rfl
    · have hlater := ih (c.send now message).1
      rw [hsame, if_neg hdown] at hlater
      rw [if_neg hdown] at hsend ⊢
      have hall := hsend.trans hlater
      rw [send, if_neg hdown] at hall
      rw [sendAll, send, if_neg hdown]
      exact hall

theorem sendBitfield_posts (c : Connection X Y) (now : Nat) (pieces : Bitfield)
    (disguised : Bool) :
    Posts c (if c.isDown then [] else c.announcement pieces disguised)
      (c.sendBitfield now pieces disguised).1 := by
  rw [sendBitfield, sendBitfieldWith, announcement]
  by_cases hdisguised : (disguised && undisguisedSize < pieces.size) = true
  · rw [if_pos hdisguised, if_pos hdisguised]
    let sampled := c.config.sample pieces.size c.picker (min disguiseSize pieces.size)
    have hall := sendAll_posts { c with picker := sampled.2 } now (disguise pieces sampled.1)
    exact ⟨hall.pending, hall.state, hall.transport⟩
  · rw [if_neg hdisguised, if_neg hdisguised]
    exact send_posts c now _

/-! ## Messages of modules -/

theorem sendFromRegistry_posts (c : Connection X Y) (name : String) (payload : Bytes) :
    Posts c (c.extended name payload)
      (c.answeredIfAny .outcome (c.sendFromRegistry? name payload)).1 := by
  unfold sendFromRegistry?
  rw [extended]
  rcases useRegistry?_cases (fun state registry => registry.send state name payload) c with
    ⟨hnone, hfound⟩ | ⟨registry, reply, hfound, hused, -, houtput, -⟩
  · rw [hnone, hfound]
    exact .nothing rfl rfl rfl
  · rw [hused, hfound]
    refine settle_posts ?_ (by simp [Message.IsOfModule])
    rw [houtput]
    exact SubContext.frames_send (registry.context c.state name) registry payload

theorem sendExtended_posts (c : Connection X Y) (name : String) (payload : Bytes) :
    Posts c (if c.isDown then [] else c.extended name payload) (c.sendExtended name payload).1 := by
  have hposts := sendFromRegistry_posts c name payload
  rw [sendExtended]
  split
  · exact .nothing rfl rfl rfl
  · cases hsent : c.sendFromRegistry? name payload with
    | some sent =>
      rw [hsent] at hposts
      exact hposts
    | none =>
      rw [hsent] at hposts
      exact hposts

theorem sendPeerExchange_posts (c : Connection X Y) (message : PeerExchange) :
    Posts c (c.messages (.sendPeerExchange message))
      (c.answeredIfAny .outcome (c.sendPeerExchange? message)).1 := by
  have hkind : ∀ context (sub : AnySubProtocol Y),
      sub.exchange? message context = none ↔ sub.asChannel? = none := by
    intro context sub
    cases sub <;> simp [AnySubProtocol.exchange?, AnySubProtocol.asChannel?]
  have hsend : c.sendPeerExchange? message = c.useSub? (AnySubProtocol.exchange? message) := rfl
  have hchannel : c.peerExchange? = c.sub? AnySubProtocol.asChannel? := rfl
  rw [hsend, messages, hchannel]
  rcases useSub?_cases hkind c with
    ⟨hnone, hfound⟩ | ⟨context, sub, used, found, reply, hact, hm, hfound, hused, -, houtput, -⟩
  · rw [hnone, hfound]
    cases message.isEmpty <;> exact .nothing rfl rfl rfl
  · cases sub with
    | metadata exchange => cases hm
    | custom sub => cases hm
    | peerExchange channel =>
      obtain rfl := Option.some.inj hm
      obtain rfl := Option.some.inj hact
      rw [hused, hfound]
      refine settle_posts ?_ ?_
      · rw [houtput]
        exact channel.frames_send context message
      · intro sent hsent
        split at hsent
        · cases hsent
        · obtain ⟨id, -, rfl⟩ := Option.map_eq_some_iff.mp (Option.mem_toList.mp hsent)
          trivial

theorem grantAllowedFast_posts (c : Connection X Y) (host : Host) (pieceCount : UInt32) :
    Posts c (c.messages (.grantAllowedFast host pieceCount))
      (c.answeredIfAny .granted (c.grantAllowedFast? host pieceCount)).1 := by
  let grant : FastExtension → Reply FastExtension (List UInt32) :=
    fun fast => fast.grant c.state host pieceCount
  have hkind : ∀ m : AnyModule X Y, m.viaFast? grant = none ↔ m.asFast? = none := by
    intro m
    cases m <;> simp [AnyModule.viaFast?, AnyModule.asFast?]
  have hgrant : c.grantAllowedFast? host pieceCount =
      (Reply.first? (AnyModule.viaFast? grant) c.modules).map
        fun reply => (c.settle reply, reply.result) := rfl
  have hfast : c.fast? = c.modules.findSome? AnyModule.asFast? := rfl
  rw [hgrant, messages, hfast]
  rcases Reply.first?_cases hkind c.modules with
    ⟨hnone, hfound⟩ | ⟨m, used, found, reply, hused, hm, hfound, hreply, -, houtput, -⟩
  · rw [hnone, hfound]
    exact .nothing rfl rfl rfl
  · cases m with
    | registry registry => cases hm
    | custom m => cases hm
    | fast fast =>
      obtain rfl := Option.some.inj hm
      obtain rfl := Option.some.inj hused
      have hframes := houtput ▸ fast.frames_grant c.state host pieceCount
      rw [hreply, hfound]
      cases hinfoHash : c.state.infoHash with
      | none =>
        rw [hinfoHash] at hframes
        refine settle_posts ?_ (List.forall_mem_nil _)
        exact hframes
      | some infoHash =>
        rw [hinfoHash] at hframes
        refine settle_posts hframes ?_
        intro sent hsent
        obtain ⟨piece, -, rfl⟩ := List.mem_map.mp hsent
        trivial

/-- A call that sends queues its messages, and does nothing else to the queue, the record
and the transport. -/
theorem perform_posts [Capability X] [SubProtocol Y] (c : Connection X Y) (now : Nat)
    {call : Call X Y} (h : call.Sends) :
    Posts c (c.messages call) (c.perform now call).1 := by
  cases call with
  | send message => exact send_posts c now message
  | sendBitfield pieces disguised => exact sendBitfield_posts c now pieces disguised
  | sendExtended name payload => exact sendExtended_posts c name payload
  | sendFromRegistry name payload => exact sendFromRegistry_posts c name payload
  | sendPeerExchange message => exact sendPeerExchange_posts c message
  | grantAllowedFast host pieceCount => exact grantAllowedFast_posts c host pieceCount
  | _ => exact h.elim

end Connection
end PeerLink
