import PeerLink.Proofs.Module.Sending
import PeerLink.Proofs.Wire.Message

/-!
# What modules queue

The modules of this library queue frames of messages and single events, one after
another.  A property of outputs that admits these holds of all that they queue.
For custom modules and sub-protocols the same is an assumption,
`Capability.Queues` and `SubProtocol.Queues`.
-/

namespace PeerLink

/-- The events that modules of this library raise. -/
def Event.IsOfModule : Event → Prop
  | .suggest _ | .haveAll | .haveNone | .reject _ | .allowedFast _ | .extendedHandshake _
  | .metadataReceived _ | .metadataRejected _ | .peerExchange _ => True
  | _ => False

/-- The events that frames of the peer can raise. -/
def Event.IsInbound : Event → Prop
  | .handshakeComplete .. | .droppedConnection | .noData => False
  | _ => True

theorem Event.IsOfModule.isInbound {event : Event} (h : event.IsOfModule) : event.IsInbound := by
  cases event with
  | handshakeComplete | droppedConnection | noData => exact h
  | _ => trivial

theorem Event.IsInbound.ne_droppedConnection {event : Event} (h : event.IsInbound) :
    event ≠ .droppedConnection := by
  rintro rfl
  exact h

namespace Output

/-- The property holds of messages that are queued one after another. -/
structure AdmitsMessages (A : Output → Prop) : Prop where
  none : A .none
  append : ∀ {first second : Output}, A first → A second → A (first ++ second)
  message : ∀ message : Message, message.IsOfModule → A (.ofFrames [message.toFrame])

/-- The property holds also of events. -/
structure Admits (A : Output → Prop) : Prop extends AdmitsMessages A where
  event : ∀ event : Event, event.IsOfModule → A (.ofEvent event)

/-- Every frame that is queued satisfies `P`. -/
def Within (P : Frame → Prop) (output : Output) : Prop := ∀ frame ∈ output.frames, P frame

/-- Every event that is queued satisfies `Q`. -/
def Raises (Q : Event → Prop) (output : Output) : Prop := ∀ event ∈ output.events, Q event

/-- No event is queued. -/
def IsUnheard (output : Output) : Prop := output.events = []

theorem AdmitsMessages.ofFrames {A : Output → Prop} (hA : AdmitsMessages A)
    {frames : List Frame}
    (h : ∀ frame ∈ frames, ∃ message : Message, message.IsOfModule ∧ frame = message.toFrame) :
    A (.ofFrames frames) := by
  induction frames with
  | nil => exact hA.none
  | cons frame rest ih =>
    obtain ⟨hframe, hrest⟩ := List.forall_mem_cons.mp h
    obtain ⟨message, hmessage, rfl⟩ := hframe
    exact hA.append (hA.message message hmessage) (ih hrest)

theorem admits_within {P : Frame → Prop}
    (hP : ∀ message : Message, message.IsOfModule → P message.toFrame) : Admits (Within P) where
  none := List.forall_mem_nil _
  append := by
    intro first second hfirst hsecond frame hframe
    rcases List.mem_append.mp hframe with h | h
    · exact hfirst frame h
    · exact hsecond frame h
  message message h := List.forall_mem_singleton.mpr (hP message h)
  event _ _ := List.forall_mem_nil _

theorem admitsMessages_raises (Q : Event → Prop) : AdmitsMessages (Raises Q) where
  none := List.forall_mem_nil _
  append := by
    intro first second hfirst hsecond event hevent
    rcases List.mem_append.mp hevent with h | h
    · exact hfirst event h
    · exact hsecond event h
  message _ _ := List.forall_mem_nil _

theorem admits_raises {Q : Event → Prop} (hQ : ∀ event : Event, event.IsOfModule → Q event) :
    Admits (Raises Q) where
  toAdmitsMessages := admitsMessages_raises Q
  event event h := List.forall_mem_singleton.mpr (hQ event h)

theorem Admits.and {A B : Output → Prop} (hA : Admits A) (hB : Admits B) :
    Admits fun output => A output ∧ B output where
  none := ⟨hA.none, hB.none⟩
  append hfirst hsecond := ⟨hA.append hfirst.1 hsecond.1, hB.append hfirst.2 hsecond.2⟩
  message message h := ⟨hA.message message h, hB.message message h⟩
  event event h := ⟨hA.event event h, hB.event event h⟩

theorem admitsMessages_isUnheard : AdmitsMessages IsUnheard where
  none := rfl
  append hfirst hsecond := List.append_eq_nil_iff.mpr ⟨hfirst, hsecond⟩
  message _ _ := rfl

end Output

variable {A : Output → Prop}

namespace Reply

variable {σ α : Type}

theorem output_each (hA : Output.AdmitsMessages A) {act : σ → Reply σ Unit}
    (hact : ∀ m, A (act m).output) (modules : List σ) : A (each act modules).output := by
  induction modules with
  | nil => exact hA.none
  | cons m rest ih =>
    rw [each]
    split
    · exact hact m
    · exact hA.append (hact m) ih

theorem output_first? {act : σ → Option (Reply σ α)}
    (hact : ∀ m reply, act m = some reply → A reply.output)
    {modules : List σ} {reply : Reply (List σ) α} (h : first? act modules = some reply) :
    A reply.output := by
  induction modules generalizing reply with
  | nil => cases h
  | cons m rest ih =>
    rw [first?] at h
    split at h
    · next used hused =>
      obtain rfl := Option.some.inj h
      exact hact m used hused
    · obtain ⟨later, hlater, rfl⟩ := Option.map_eq_some_iff.mp h
      change A later.output
      exact ih hlater

end Reply

/-! ## What messages say -/

theorem Inbound.isInbound_of_read? {id : UInt8} {length : UInt32} {payload : Bytes}
    {event : Event} (h : Inbound.read? id length payload = some (.ok event)) :
    event.IsInbound := by
  cases says_of_read? h with
  | _ => trivial

theorem Inbound.isInbound_of_flag? {command : Command} {event : Event}
    (h : Inbound.flag? command = some event) : event.IsInbound := by
  cases command with
  | choke | unchoke | interested | notInterested =>
    obtain rfl := Option.some.inj h
    trivial
  | _ => cases h

theorem FastExtension.isOfModule_of_read? {command : Command} {payload : Bytes}
    {event : Event} (h : FastExtension.read? command payload = some (.ok event)) :
    event.IsOfModule := by
  cases command with
  | suggest | reject | allowedFast =>
    obtain ⟨a, -, rfl⟩ := map_eq_ok_iff.mp (Option.some.inj h)
    trivial
  | haveAll | haveNone =>
    obtain rfl := Except.ok.inj (Option.some.inj h)
    trivial
  | _ => cases h

/-! ## Sending on behalf of a module -/

theorem SubContext.exists_of_frame {context : SubContext} {payload : Bytes} {frame : Frame}
    (h : context.frame payload = .ok frame) :
    ∃ message : Message, message.IsOfModule ∧ frame = message.toFrame := by
  rw [SubContext.frame] at h
  split at h
  · next id _ => exact ⟨.extended id payload, trivial, (Except.ok.inj h).symm⟩
  · cases h

theorem SubContext.frames_ofMessages {context : SubContext} {payloads : List Bytes}
    {frames : List Frame} (h : payloads.mapM context.frame = .ok frames) :
    ∀ frame ∈ frames, ∃ message : Message, message.IsOfModule ∧ frame = message.toFrame := by
  intro frame hframe
  obtain ⟨payload, -, hpayload⟩ := exists_of_mem_mapM h frame hframe
  exact SubContext.exists_of_frame hpayload

section Messages

variable (hA : Output.AdmitsMessages A)
include hA

theorem SubContext.output_send {σ : Type} (context : SubContext) (next : σ) (payload : Bytes) :
    A (context.send next payload).output := by
  rw [SubContext.send]
  split
  · next frame hframe =>
    obtain ⟨message, hmessage, rfl⟩ := SubContext.exists_of_frame hframe
    exact hA.message message hmessage
  · exact hA.none

theorem PeerExchangeChannel.output_send (channel : PeerExchangeChannel) (context : SubContext)
    (message : PeerExchange) : A (channel.send context message).output := by
  rw [PeerExchangeChannel.send]
  split
  · exact hA.none
  · split
    · exact hA.none
    · next frame hframe =>
      obtain ⟨message, hmessage, rfl⟩ := SubContext.exists_of_frame hframe
      exact hA.message message hmessage

theorem AnySubProtocol.output_exchange? {Y : Type} {message : PeerExchange} {context : SubContext}
    {sub : AnySubProtocol Y} {reply : Reply (AnySubProtocol Y) Unit}
    (h : sub.exchange? message context = some reply) : A reply.output := by
  cases sub with
  | peerExchange channel =>
    obtain rfl := Option.some.inj h
    exact PeerExchangeChannel.output_send hA channel context message
  | metadata exchange => cases h
  | custom sub => cases h

theorem FastExtension.output_grant (fast : FastExtension) (state : ConnectionState) (host : Host)
    (pieceCount : UInt32) : A (fast.grant state host pieceCount).output := by
  rw [FastExtension.grant]
  split
  · exact hA.none
  · apply hA.ofFrames
    intro frame hframe
    obtain ⟨piece, -, rfl⟩ := List.mem_map.mp hframe
    exact ⟨.allowedFast piece, trivial, rfl⟩

end Messages

/-! ## Modules -/

/-- What the callbacks of modules of this type queue has the property. -/
structure Capability.Queues (A : Output → Prop) (σ : Type) [Capability σ] : Prop where
  onHandshake : ∀ (m : σ) (state : ConnectionState) (handshake : Handshake),
    A (Capability.onHandshake m state handshake).output
  onCommand : ∀ (m : σ) (state : ConnectionState) (command : UInt8) (payload : Bytes),
    A (Capability.onCommand m state command payload).output

/-- What the callbacks of sub-protocols of this type queue has the property. -/
structure SubProtocol.Queues (A : Output → Prop) (σ : Type) [SubProtocol σ] : Prop where
  onHandshake : ∀ (sub : σ) (context : SubContext) (handshake : ExtensionHandshake),
    A (SubProtocol.onHandshake sub context handshake).output
  onMessage : ∀ (sub : σ) (context : SubContext) (payload : Bytes),
    A (SubProtocol.onMessage sub context payload).output

theorem Capability.Queues.mono {σ : Type} [Capability σ] {B : Output → Prop}
    (h : Capability.Queues A σ) (hAB : ∀ output, A output → B output) : Capability.Queues B σ :=
  ⟨fun m state handshake => hAB _ (h.onHandshake m state handshake),
    fun m state command payload => hAB _ (h.onCommand m state command payload)⟩

theorem SubProtocol.Queues.mono {σ : Type} [SubProtocol σ] {B : Output → Prop}
    (h : SubProtocol.Queues A σ) (hAB : ∀ output, A output → B output) : SubProtocol.Queues B σ :=
  ⟨fun sub context handshake => hAB _ (h.onHandshake sub context handshake),
    fun sub context payload => hAB _ (h.onMessage sub context payload)⟩

theorem Capability.queues_anything {σ : Type} [Capability σ] :
    Capability.Queues (Output.Within fun _ => True) σ :=
  ⟨fun _ _ _ _ _ => trivial, fun _ _ _ _ _ _ => trivial⟩

theorem SubProtocol.queues_anything {σ : Type} [SubProtocol σ] :
    SubProtocol.Queues (Output.Within fun _ => True) σ :=
  ⟨fun _ _ _ _ _ => trivial, fun _ _ _ _ _ => trivial⟩

theorem Capability.queues_empty : Capability.Queues A Empty :=
  ⟨fun m => m.elim, fun m => m.elim⟩

theorem SubProtocol.queues_empty : SubProtocol.Queues A Empty :=
  ⟨fun sub => sub.elim, fun sub => sub.elim⟩

theorem Capability.Queues.offer {σ : Type} [Capability σ] (hA : Output.AdmitsMessages A)
    (hσ : Capability.Queues A σ) (state : ConnectionState) (command : UInt8) (payload : Bytes)
    (modules : List σ) : A (Capability.offer state command payload modules).output := by
  induction modules with
  | nil => exact hA.none
  | cons m rest ih =>
    have hm := hσ.onCommand m state command payload
    rw [Capability.offer]
    split
    · dsimp only
      split
      · exact hm
      · exact hm
      · exact hA.append hm ih
    · exact ih

section Events

variable (hA : Output.Admits A)
include hA

theorem FastExtension.queues : Capability.Queues A FastExtension := by
  constructor
  · intro fast state handshake
    exact hA.none
  · intro fast state command payload
    change A (FastExtension.onCommand fast command payload).output
    rw [FastExtension.onCommand]
    split
    · exact hA.none
    · exact hA.none
    · next event hread =>
      obtain ⟨known, -, hread⟩ := Option.bind_eq_some_iff.mp hread
      exact hA.event event (isOfModule_of_read? hread)

/-! ## Sub-protocols -/

theorem MetadataExchange.output_finish (exchange : MetadataExchange) (context : SubContext)
    (download : MetadataDownload) : A (exchange.finish context download).output := by
  rw [MetadataExchange.finish]
  split
  · exact hA.none
  · split
    · exact hA.event _ trivial
    · exact hA.none

theorem MetadataExchange.output_receive (exchange : MetadataExchange) (context : SubContext)
    (piece : UInt32) (data : Bytes) : A (exchange.receive context piece data).output := by
  rw [MetadataExchange.receive]
  split
  · exact hA.none
  · dsimp only
    split
    · exact hA.none
    · split
      · exact hA.none
      · split
        · exact output_finish hA exchange context _
        · exact hA.none

theorem MetadataExchange.queues : SubProtocol.Queues A MetadataExchange := by
  constructor
  · intro exchange context handshake
    change A (exchange.onHandshake context handshake).output
    rw [MetadataExchange.onHandshake]
    split
    · exact hA.none
    · split
      · exact hA.none
      · dsimp only
        split
        · exact hA.none
        · next hframes => exact hA.ofFrames (SubContext.frames_ofMessages hframes)
  · intro exchange context payload
    change A (exchange.onMessage context payload).output
    rw [MetadataExchange.onMessage]
    split
    · exact hA.none
    · split
      · exact SubContext.output_send hA.toAdmitsMessages context exchange _
      · exact MetadataExchange.output_receive hA exchange context _ _
      · exact hA.event _ trivial

theorem PeerExchangeChannel.queues : SubProtocol.Queues A PeerExchangeChannel := by
  constructor
  · intro channel context handshake
    exact hA.none
  · intro channel context payload
    change A (channel.onMessage payload).output
    rw [PeerExchangeChannel.onMessage]
    split
    · exact hA.none
    · exact hA.event _ trivial

/-! ## Registries and all modules -/

variable {X Y : Type} [Capability X] [SubProtocol Y]

theorem AnySubProtocol.queues (hY : SubProtocol.Queues A Y) :
    SubProtocol.Queues A (AnySubProtocol Y) := by
  constructor
  · intro sub context handshake
    cases sub with
    | metadata exchange => exact (MetadataExchange.queues hA).onHandshake exchange context handshake
    | peerExchange channel =>
      exact (PeerExchangeChannel.queues hA).onHandshake channel context handshake
    | custom sub => exact hY.onHandshake sub context handshake
  · intro sub context payload
    cases sub with
    | metadata exchange => exact (MetadataExchange.queues hA).onMessage exchange context payload
    | peerExchange channel =>
      exact (PeerExchangeChannel.queues hA).onMessage channel context payload
    | custom sub => exact hY.onMessage sub context payload

theorem Registry.output_receiveHandshake (hY : SubProtocol.Queues A Y) (registry : Registry Y)
    (state : ConnectionState) (payload : Bytes) :
    A (registry.receiveHandshake state payload).output := by
  rw [Registry.receiveHandshake]
  split
  · exact hA.none
  · next handshake _ =>
    refine hA.append (hA.event _ trivial) ?_
    refine Reply.output_each hA.toAdmitsMessages ?_ registry.subs
    intro sub
    rw [Registry.greet]
    split
    · exact hA.none
    · exact (AnySubProtocol.queues hA hY).onHandshake sub.handler _ handshake

theorem Registry.output_route (hY : SubProtocol.Queues A Y) (registry : Registry Y)
    (state : ConnectionState) (id : UInt8) (payload : Bytes) :
    A (registry.route state id payload).output := by
  rw [Registry.route]
  dsimp only
  split
  · exact hA.none
  · next sub _ => exact (AnySubProtocol.queues hA hY).onMessage sub.handler _ payload

omit hA in
theorem Registry.output_forgiveUnroutable {σ : Type} (reply : Reply σ Unit) :
    (Registry.forgiveUnroutable reply).output = reply.output := by
  rw [Registry.forgiveUnroutable]
  split <;> rfl

theorem Registry.queues (hY : SubProtocol.Queues A Y) : Capability.Queues A (Registry Y) := by
  constructor
  · intro registry state handshake
    exact hA.message _ trivial
  · intro registry state command payload
    change A (registry.onCommand state payload).output
    cases payload with
    | nil => exact hA.none
    | cons id payload =>
      rw [Registry.onCommand]
      split
      · exact Registry.output_receiveHandshake hA hY registry state payload
      · rw [Registry.output_forgiveUnroutable]
        exact Registry.output_route hA hY registry state id payload

theorem AnyModule.queues (hX : Capability.Queues A X) (hY : SubProtocol.Queues A Y) :
    Capability.Queues A (AnyModule X Y) := by
  constructor
  · intro m state handshake
    cases m with
    | fast fast => exact (FastExtension.queues hA).onHandshake fast state handshake
    | registry registry => exact (Registry.queues hA hY).onHandshake registry state handshake
    | custom m => exact hX.onHandshake m state handshake
  · intro m state command payload
    cases m with
    | fast fast => exact (FastExtension.queues hA).onCommand fast state command payload
    | registry registry =>
      exact (Registry.queues hA hY).onCommand registry state command payload
    | custom m => exact hX.onCommand m state command payload

end Events
end PeerLink
