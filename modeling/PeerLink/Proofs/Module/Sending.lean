import PeerLink.Module.AnyModule

/-!
# What modules send

A sending operation of a module queues a frame if it has one to send, and otherwise
leaves the module as it is.  Operations that go to the first module of a kind do what
they do to that module alone.
-/

namespace PeerLink

/-- The messages that modules of this library send. -/
def Message.IsOfModule : Message → Prop
  | .extended .. | .allowedFast _ => True
  | _ => False

/-! ## Replies that carry something or nothing -/

namespace Reply

variable {σ τ α : Type}

/-- If there is something to carry the callback succeeds and queues frames, and if not
it does nothing. -/
structure Conveys (carries : Prop) (m : σ) (reply : Reply σ α) : Prop where
  queues : carries → reply.result.isOk = true ∧ reply.output.frames ≠ []
  keeps : ¬ carries → reply.next = m ∧ reply.output = .none

theorem Conveys.mapNext {carries : Prop} {m : σ} {reply : Reply σ α}
    (h : reply.Conveys carries m) (f : σ → τ) : (reply.mapNext f).Conveys carries (f m) := by
  refine ⟨h.queues, ?_⟩
  intro hnot
  obtain ⟨hnext, houtput⟩ := h.keeps hnot
  exact ⟨congrArg f hnext, houtput⟩

theorem Conveys.map {β : Type} {carries : Prop} {m : σ} {reply : Reply σ α}
    (h : reply.Conveys carries m) (f : α → β) : (reply.map f).Conveys carries m := by
  refine ⟨?_, h.keeps⟩
  intro hcarries
  obtain ⟨hok, hframes⟩ := h.queues hcarries
  refine ⟨?_, hframes⟩
  change (reply.result.map f).isOk = true
  cases hresult : reply.result with
  | error failure => simp [hresult, Except.isOk, Except.toBool] at hok
  | ok a => rfl

/-- The first module that has a callback is the first that is of its kind. -/
theorem first?_cases {act : σ → Option (Reply σ α)} {kind : σ → Option τ}
    (hkind : ∀ m, act m = none ↔ kind m = none) (modules : List σ) :
    first? act modules = none ∧ modules.findSome? kind = none ∨
      ∃ m used found reply, act m = some used ∧ kind m = some found ∧
        modules.findSome? kind = some found ∧ first? act modules = some reply ∧
        reply.result = used.result ∧ reply.output = used.output ∧
        ∀ carries, used.Conveys carries m → reply.Conveys carries modules := by
  induction modules with
  | nil => exact .inl ⟨rfl, rfl⟩
  | cons m rest ih =>
    rw [first?, List.findSome?_cons]
    cases hact : act m with
    | some used =>
      cases hfound : kind m with
      | none =>
        rw [(hkind m).mpr hfound] at hact
        cases hact
      | some found =>
        exact .inr ⟨m, used, found, _, hact, hfound, rfl, rfl, rfl, rfl,
          fun carries h => h.mapNext (· :: rest)⟩
    | none =>
      rw [(hkind m).mp hact]
      rcases ih with ⟨hnone, hfound⟩ |
        ⟨m', used, found, reply, hused, hm, hfound, hreply, hsame, houtput, h⟩
      · left
        rw [hnone]
        exact ⟨rfl, hfound⟩
      · right
        refine ⟨m', used, found, reply.mapNext (m :: ·), hused, hm, hfound, ?_, hsame, houtput, ?_⟩
        · rw [hreply]
          rfl
        · intro carries hcarries
          exact (h carries hcarries).mapNext (m :: ·)

end Reply

/-! ## What modules send -/

theorem SubContext.send_conveys {σ : Type} (context : SubContext) (next : σ) (payload : Bytes) :
    (context.send next payload).Conveys (∃ id, context.remoteId = some id) next := by
  rw [send, frame]
  cases context.remoteId with
  | none => exact ⟨fun h => by simp at h, fun _ => ⟨rfl, rfl⟩⟩
  | some id => exact ⟨fun _ => ⟨rfl, List.cons_ne_nil _ _⟩, fun h => absurd ⟨id, rfl⟩ h⟩

theorem PeerExchangeChannel.send_conveys (channel : PeerExchangeChannel) (context : SubContext)
    (message : PeerExchange) :
    (channel.send context message).Conveys
      (message.isEmpty = false ∧ ∃ id, context.remoteId = some id) channel := by
  rw [send, SubContext.frame]
  cases hempty : message.isEmpty with
  | true => exact ⟨fun h => by simp at h, fun _ => ⟨rfl, rfl⟩⟩
  | false =>
    cases context.remoteId with
    | none => exact ⟨fun h => by simp at h, fun _ => ⟨rfl, rfl⟩⟩
    | some id => exact ⟨fun _ => ⟨rfl, List.cons_ne_nil _ _⟩, fun h => absurd ⟨rfl, id, rfl⟩ h⟩

/-- Granting carries the pieces that the peer is not allowed yet. -/
theorem FastExtension.grant_conveys (fast : FastExtension) (state : ConnectionState) (host : Host)
    (pieceCount : UInt32) :
    (fast.grant state host pieceCount).Conveys
      (∃ infoHash, state.infoHash = some infoHash ∧
        ∃ piece ∈ AllowedFast.generate infoHash host pieceCount grantSize,
          piece ∉ fast.allowedToPeer) fast := by
  rw [grant]
  cases state.infoHash with
  | none => exact ⟨fun h => by simp at h, fun _ => ⟨rfl, rfl⟩⟩
  | some infoHash =>
    let fresh := (AllowedFast.generate infoHash host pieceCount grantSize).filter
      fun piece => !fast.allowedToPeer.contains piece
    have hfresh : fresh ≠ [] ↔ ∃ infoHash', some infoHash = some infoHash' ∧
        ∃ piece ∈ AllowedFast.generate infoHash' host pieceCount grantSize,
          piece ∉ fast.allowedToPeer := by
      simp [fresh, List.filter_eq_nil_iff]
    constructor
    · intro hcarries
      refine ⟨rfl, ?_⟩
      change fresh.map _ ≠ []
      simpa using hfresh.mpr hcarries
    · intro hnot
      have hnone : fresh = [] := Classical.not_not.mp fun hsome => hnot (hfresh.mp hsome)
      change { fast with allowedToPeer := fast.allowedToPeer ++ fresh } = fast ∧
        Output.ofFrames (fresh.map fun piece => (Message.allowedFast piece).toFrame) = .none
      rw [hnone, List.append_nil]
      exact ⟨rfl, rfl⟩

theorem SubContext.frames_send {σ : Type} (context : SubContext) (next : σ) (payload : Bytes) :
    (context.send next payload).output.frames =
      (context.remoteId.map (Message.extended · payload)).toList.map Message.toFrame := by
  rw [send, frame]
  cases context.remoteId <;> rfl

theorem PeerExchangeChannel.frames_send (channel : PeerExchangeChannel) (context : SubContext)
    (message : PeerExchange) :
    (channel.send context message).output.frames =
      (if message.isEmpty then []
        else (context.remoteId.map (Message.extended · message.encode)).toList).map
          Message.toFrame := by
  rw [send, SubContext.frame]
  cases message.isEmpty with
  | true => rfl
  | false => cases context.remoteId <;> rfl

/-- The messages that allow a peer the pieces that it is not allowed yet. -/
def FastExtension.allowances (fast : FastExtension) (infoHash : Digest) (host : Host)
    (pieceCount : UInt32) : List Message :=
  ((AllowedFast.generate infoHash host pieceCount grantSize).filter
    fun piece => !fast.allowedToPeer.contains piece).map .allowedFast

theorem FastExtension.frames_grant (fast : FastExtension) (state : ConnectionState) (host : Host)
    (pieceCount : UInt32) :
    (fast.grant state host pieceCount).output.frames =
      ((state.infoHash.map (fast.allowances · host pieceCount)).getD []).map Message.toFrame := by
  rw [grant]
  cases state.infoHash with
  | none => rfl
  | some infoHash =>
    change List.map _ _ = List.map Message.toFrame (List.map Message.allowedFast _)
    rw [List.map_map]
    rfl

/-! ## Modules and sub-protocols by kind -/

section Kinds

variable {X Y α : Type}

/-- The module as a fast extension. -/
def AnyModule.asFast? : AnyModule X Y → Option FastExtension
  | .fast found => some found
  | _ => none

/-- The module as a registry. -/
def AnyModule.asRegistry? : AnyModule X Y → Option (Registry Y)
  | .registry found => some found
  | _ => none

/-- Runs an operation of a fast extension. -/
def AnyModule.viaFast? (act : FastExtension → Reply FastExtension α) :
    AnyModule X Y → Option (Reply (AnyModule X Y) α)
  | .fast found => some ((act found).mapNext .fast)
  | _ => none

/-- Runs an operation of a registry. -/
def AnyModule.viaRegistry? (act : Registry Y → Reply (Registry Y) α) :
    AnyModule X Y → Option (Reply (AnyModule X Y) α)
  | .registry found => some ((act found).mapNext .registry)
  | _ => none

/-- The sub-protocol as a peer exchange channel. -/
def AnySubProtocol.asChannel? : AnySubProtocol Y → Option PeerExchangeChannel
  | .peerExchange channel => some channel
  | _ => none

/-- Sends a message by way of a peer exchange channel. -/
def AnySubProtocol.exchange? (message : PeerExchange) (context : SubContext) :
    AnySubProtocol Y → Option (Reply (AnySubProtocol Y) Unit)
  | .peerExchange channel => some ((channel.send context message).mapNext .peerExchange)
  | _ => none

/-- Runs an operation of the first sub-protocol that has it, if there is one. -/
def Registry.useIfAny (registry : Registry Y) (state : ConnectionState)
    (act : SubContext → AnySubProtocol Y → Option (Reply (AnySubProtocol Y) α)) :
    Reply (Registry Y) (Option α) :=
  match registry.use? state act with
  | some reply => reply.map some
  | none => .ok registry none .none

end Kinds

/-- Using a sub-protocol is using the first of its kind. -/
theorem Registry.use?_cases {Y α β : Type}
    {act : SubContext → AnySubProtocol Y → Option (Reply (AnySubProtocol Y) α)}
    {kind : AnySubProtocol Y → Option β}
    (hkind : ∀ context sub, act context sub = none ↔ kind sub = none)
    (registry : Registry Y) (state : ConnectionState) :
    let found? := registry.subs.findSome? fun sub =>
      (kind sub.handler).map fun b => (b, registry.incomingId? sub.name)
    registry.use? state act = none ∧ found? = none ∨
      ∃ context sub used found reply, act context sub = some used ∧ kind sub = some found ∧
        found? = some (found, context.remoteId) ∧ registry.use? state act = some reply ∧
        reply.result = used.result ∧ reply.output = used.output ∧
        ∀ carries, used.Conveys carries sub → reply.Conveys carries registry := by
  intro found?
  let useSub : Registered Y → Option (Reply (Registered Y) α) := fun sub =>
    (act (registry.context state sub.name) sub.handler).map (Registry.renew sub)
  let subKind : Registered Y → Option (β × Option UInt8) := fun sub =>
    (kind sub.handler).map fun b => (b, registry.incomingId? sub.name)
  have hsubKind : ∀ sub, useSub sub = none ↔ subKind sub = none := by
    intro sub
    simp [useSub, subKind, hkind]
  have huse : registry.use? state act = (Reply.first? useSub registry.subs).map
      fun reply => reply.mapNext fun subs => { registry with subs } := rfl
  have hfound? : found? = registry.subs.findSome? subKind := rfl
  rw [huse, hfound?]
  rcases Reply.first?_cases hsubKind registry.subs with
    ⟨hnone, hfound⟩ | ⟨sub, renewed, found, reply, hact, hm, hfound, hreply, hsame, houtput, h⟩
  · left
    rw [hnone]
    exact ⟨rfl, hfound⟩
  · right
    obtain ⟨used, hused, rfl⟩ := Option.map_eq_some_iff.mp hact
    obtain ⟨b, hb, rfl⟩ := Option.map_eq_some_iff.mp hm
    refine ⟨_, sub.handler, used, b, _, hused, hb, hfound, by rw [hreply]; rfl, hsame, houtput, ?_⟩
    intro carries hcarries
    exact (h carries (hcarries.mapNext fun handler => { sub with handler })).mapNext
      fun subs => { registry with subs }

end PeerLink
