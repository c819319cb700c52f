import PeerLink.Proofs.Module.Output

/-!
# What modules tell before they refuse

A callback of this library raises events only if it comes to a good end: a frame that
the modules refuse is one that they did not tell about.  Custom modules and
sub-protocols are assumed to keep to this, in `Capability.RefusesUnheard` and
`SubProtocol.RefusesUnheard`.
-/

namespace PeerLink

/-- What several callbacks queue, one after the other. -/
def Output.join (outputs : List Output) : Output := outputs.foldr (· ++ ·) .none

namespace Reply

variable {σ τ α β : Type}

/-- The callback comes to `a`, or it raises no event. -/
def UnheardUnless (a : α) (reply : Reply σ α) : Prop :=
  reply.result = .ok a ∨ reply.output.IsUnheard

theorem UnheardUnless.of_ne {a : α} {reply : Reply σ α} (h : reply.UnheardUnless a)
    (hne : reply.result ≠ .ok a) : reply.output.IsUnheard :=
  h.resolve_left hne

theorem UnheardUnless.map {a : α} {reply : Reply σ α} (h : reply.UnheardUnless a) (f : α → β) :
    (reply.map f).UnheardUnless (f a) := by
  rcases h with hresult | hunheard
  · left
    change reply.result.map f = .ok (f a)
    rw [hresult]
    rfl
  · exact .inr hunheard

/-- If none of them fails, all callbacks run. -/
theorem each_of_ok {act : σ → Reply σ Unit} {modules : List σ}
    (h : ∀ m ∈ modules, (act m).result = .ok ()) :
    each act modules =
      .ok (modules.map fun m => (act m).next) () (.join (modules.map fun m => (act m).output)) := by
  induction modules with
  | nil => rfl
  | cons m rest ih =>
    obtain ⟨hm, hrest⟩ := List.forall_mem_cons.mp h
    rw [each]
    simp only [hm]
    rw [ih hrest]
    rfl

theorem each_result_eq_ok {act : σ → Reply σ Unit} {modules : List σ}
    (h : ∀ m ∈ modules, (act m).result = .ok ()) : (each act modules).result = .ok () := by
  rw [each_of_ok h]
  rfl

end Reply

/-- A module that raises events for a frame takes the frame. -/
def Capability.RefusesUnheard (σ : Type) [Capability σ] : Prop :=
  ∀ (m : σ) (state : ConnectionState) (command : UInt8) (payload : Bytes),
    (Capability.onCommand m state command payload).UnheardUnless true

/-- A sub-protocol takes every handshake that gives it an id, and raises events only for
messages that it takes. -/
structure SubProtocol.RefusesUnheard (σ : Type) [SubProtocol σ] : Prop where
  onHandshake : ∀ (sub : σ) (context : SubContext) (handshake : ExtensionHandshake),
    context.remoteId ≠ none → (SubProtocol.onHandshake sub context handshake).result = .ok ()
  onMessage : ∀ (sub : σ) (context : SubContext) (payload : Bytes),
    (SubProtocol.onMessage sub context payload).UnheardUnless ()

theorem Capability.refusesUnheard_empty : Capability.RefusesUnheard Empty := fun m => m.elim

theorem SubProtocol.refusesUnheard_empty : SubProtocol.RefusesUnheard Empty :=
  ⟨fun sub => sub.elim, fun sub => sub.elim⟩

/-- Of several modules, all but the one that takes the frame are silent. -/
theorem Capability.RefusesUnheard.offer {σ : Type} [Capability σ] (hσ : RefusesUnheard σ)
    (state : ConnectionState) (command : UInt8) (payload : Bytes) (modules : List σ) :
    (Capability.offer state command payload modules).UnheardUnless true := by
  induction modules with
  | nil => exact .inr rfl
  | cons m rest ih =>
    rw [Capability.offer]
    split
    · have hm := hσ m state command payload
      dsimp only
      split
      · next failure hfailure => exact .inr (hm.of_ne (by simp [hfailure]))
      · exact .inl rfl
      · next hpassed =>
        have hunheard := hm.of_ne (by simp [hpassed])
        rcases ih with hlater | hsilent
        · exact .inl hlater
        · exact .inr (Output.admitsMessages_isUnheard.append hunheard hsilent)
    · exact ih

/-! ## Sub-protocols -/

/-- A sub-protocol with an id of the peer can send. -/
theorem SubContext.mapM_frame_eq_ok {context : SubContext} (h : context.remoteId ≠ none)
    (payloads : List Bytes) : ∃ frames, payloads.mapM context.frame = .ok frames := by
  obtain ⟨id, hid⟩ := Option.ne_none_iff_exists'.mp h
  have hframe : context.frame = fun payload => pure (Message.extended id payload).toFrame := by
    funext payload
    rw [SubContext.frame, hid]
    rfl
  exact ⟨_, hframe ▸ List.mapM_pure⟩

namespace MetadataExchange

theorem onHandshake_result (exchange : MetadataExchange) {context : SubContext}
    (handshake : ExtensionHandshake) (h : context.remoteId ≠ none) :
    (exchange.onHandshake context handshake).result = .ok () := by
  rw [onHandshake]
  split
  · rfl
  · split
    · rfl
    · next size _ =>
      obtain ⟨frames, hframes⟩ := SubContext.mapM_frame_eq_ok h
        ((List.range (Metadata.pieceCount size)).map fun index =>
          (MetadataMessage.request (UInt32.ofNat index)).encode)
      dsimp only
      rw [hframes]
      rfl

theorem finish_unheardUnless (exchange : MetadataExchange) (context : SubContext)
    (download : MetadataDownload) : (exchange.finish context download).UnheardUnless () := by
  rw [finish]
  split
  · exact .inr rfl
  · split
    · exact .inl rfl
    · exact .inr rfl

theorem receive_unheardUnless (exchange : MetadataExchange) (context : SubContext)
    (piece : UInt32) (data : Bytes) :
    (exchange.receive context piece data).UnheardUnless () := by
  rw [receive]
  split
  · exact .inl rfl
  · dsimp only
    split
    · exact .inr rfl
    · split
      · exact .inr rfl
      · split
        · exact finish_unheardUnless exchange context _
        · exact .inl rfl

theorem refusesUnheard : SubProtocol.RefusesUnheard MetadataExchange := by
  constructor
  · intro exchange context handshake h
    exact onHandshake_result exchange handshake h
  · intro exchange context payload
    change (exchange.onMessage context payload).UnheardUnless ()
    rw [onMessage]
    split
    · exact .inr rfl
    · split
      · exact .inr (SubContext.output_send Output.admitsMessages_isUnheard context exchange _)
      · exact receive_unheardUnless exchange context _ _
      · exact .inl rfl

end MetadataExchange

theorem PeerExchangeChannel.refusesUnheard : SubProtocol.RefusesUnheard PeerExchangeChannel := by
  constructor
  · intro channel context handshake _
    rfl
  · intro channel context payload
    change (channel.onMessage payload).UnheardUnless ()
    rw [PeerExchangeChannel.onMessage]
    split
    · exact .inr rfl
    · exact .inl rfl

variable {X Y : Type} [Capability X] [SubProtocol Y]

theorem AnySubProtocol.refusesUnheard (hY : SubProtocol.RefusesUnheard Y) :
    SubProtocol.RefusesUnheard (AnySubProtocol Y) := by
  constructor
  · intro sub context handshake h
    cases sub with
    | metadata exchange => exact MetadataExchange.refusesUnheard.onHandshake exchange context _ h
    | peerExchange channel => rfl
    | custom sub => exact hY.onHandshake sub context handshake h
  · intro sub context payload
    cases sub with
    | metadata exchange => exact MetadataExchange.refusesUnheard.onMessage exchange context payload
    | peerExchange channel =>
      exact PeerExchangeChannel.refusesUnheard.onMessage channel context payload
    | custom sub => exact hY.onMessage sub context payload

/-! ## Modules -/

theorem FastExtension.refusesUnheard : Capability.RefusesUnheard FastExtension := by
  intro fast state command payload
  change (fast.onCommand command payload).UnheardUnless true
  rw [FastExtension.onCommand]
  split
  · exact .inr rfl
  · exact .inr rfl
  · exact .inl rfl

namespace Registry

theorem forgiveUnroutable_unheardUnless {σ : Type} {reply : Reply σ Unit}
    (h : reply.UnheardUnless ()) : (forgiveUnroutable reply).UnheardUnless true := by
  rw [forgiveUnroutable]
  split
  · exact .inl rfl
  · exact h.map fun _ => true

theorem greet_result_eq_ok {state : ConnectionState} {handshake : ExtensionHandshake}
    {sub : Registered Y} (h : ∀ id, (SubProtocol.onHandshake sub.handler
      ⟨state, sub.name, some id⟩ handshake).result = .ok ()) :
    (greet state handshake sub).result = .ok () := by
  rw [greet]
  split
  · rfl
  · exact h _

theorem receiveHandshake_unheardUnless (hY : SubProtocol.RefusesUnheard Y)
    (registry : Registry Y) (state : ConnectionState) (payload : Bytes) :
    (registry.receiveHandshake state payload).UnheardUnless () := by
  rw [receiveHandshake]
  split
  · exact .inr rfl
  · next handshake _ =>
    -- The event is raised before the sub-protocols are asked, so none of them may fail.
    have hgreet : ∀ sub : Registered Y, (greet state handshake sub).result = .ok () := by
      intro sub
      apply greet_result_eq_ok
      intro id
      exact (AnySubProtocol.refusesUnheard hY).onHandshake sub.handler _ handshake
        (Option.some_ne_none id)
    exact .inl (Reply.each_result_eq_ok fun sub _ => hgreet sub)

theorem route_unheardUnless (hY : SubProtocol.RefusesUnheard Y) (registry : Registry Y)
    (state : ConnectionState) (id : UInt8) (payload : Bytes) :
    (registry.route state id payload).UnheardUnless () := by
  rw [route]
  dsimp only
  split
  · exact .inr rfl
  · next sub _ => exact (AnySubProtocol.refusesUnheard hY).onMessage sub.handler _ payload

theorem refusesUnheard (hY : SubProtocol.RefusesUnheard Y) :
    Capability.RefusesUnheard (Registry Y) := by
  intro registry state command payload
  change (registry.onCommand state payload).UnheardUnless true
  cases payload with
  | nil => exact .inr rfl
  | cons id payload =>
    rw [onCommand]
    split
    · exact (receiveHandshake_unheardUnless hY registry state payload).map fun _ => true
    · exact forgiveUnroutable_unheardUnless (route_unheardUnless hY registry state id payload)

end Registry

theorem AnyModule.refusesUnheard (hX : Capability.RefusesUnheard X)
    (hY : SubProtocol.RefusesUnheard Y) : Capability.RefusesUnheard (AnyModule X Y) := by
  intro m state command payload
  cases m with
  | fast fast => exact FastExtension.refusesUnheard fast state command payload
  | registry registry => exact Registry.refusesUnheard hY registry state command payload
  | custom m => exact hX m state command payload

end PeerLink
