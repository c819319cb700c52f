import PeerLink.Connection.Call
import PeerLink.Connection.Query
import PeerLink.Proofs.Connection.Hearing
import PeerLink.Proofs.Module.Sending

/-!
# Sending by way of a module

Some calls go to a module of the connection, which queues a frame if it has one to
send.  Whether it has one can be read off the module and the ids that the peer gave.
Such a call succeeds if it carries a frame, and otherwise leaves the connection as it
is.
-/

namespace PeerLink

/-- The call succeeded. -/
def Answer.succeeded : Answer → Bool
  | .outcome result => result.isOk
  | .granted result => result.isOk
  | _ => false

/-- The call goes to a module and not to the connection. -/
def Call.IsDirect {X Y : Type} : Call X Y → Prop
  | .sendFromRegistry .. | .sendPeerExchange _ | .grantAllowedFast .. => True
  | _ => False

namespace Connection

variable {X Y : Type} {c : Connection X Y}

/-- The call has a frame to queue. -/
def Carries (c : Connection X Y) : Call X Y → Prop
  | .send _ | .sendBitfield .. => True
  | .sendExtended name _ | .sendFromRegistry name _ =>
    ∃ registry id, c.registry? = some registry ∧ registry.incomingId? name = some id
  | .sendPeerExchange message =>
    message.isEmpty = false ∧ ∃ channel id, c.peerExchange? = some (channel, some id)
  | .grantAllowedFast host pieceCount =>
    ∃ fast infoHash, c.fast? = some fast ∧ c.state.infoHash = some infoHash ∧
      ∃ piece ∈ AllowedFast.generate infoHash host pieceCount FastExtension.grantSize,
        piece ∉ fast.allowedToPeer
  | _ => False

/-- What comes of a call that goes to a module: it succeeds and queues something if it
carries a frame, and changes nothing if it does not. -/
structure Conveys (c : Connection X Y) (carries : Prop) (outcome : Connection X Y × Answer) :
    Prop where
  queues : carries → outcome.2.succeeded = true ∧
    outcome.1.outbox.pending.length > c.outbox.pending.length
  keeps : ¬ carries → outcome.1 = c

theorem settle_conveys {α : Type} {reply : Reply (List (AnyModule X Y)) α} {carries : Prop}
    (h : reply.Conveys carries c.modules) {answer : Answer}
    (hanswer : answer.succeeded = reply.result.isOk) :
    Conveys c carries (c.settle reply, answer) := by
  constructor
  · intro hcarries
    obtain ⟨hok, hframes⟩ := h.queues hcarries
    have hlength := List.length_pos_iff.mpr hframes
    refine ⟨hanswer.trans hok, ?_⟩
    simp [settle, Outbox.add, hlength]
  · intro hnot
    obtain ⟨hnext, houtput⟩ := h.keeps hnot
    change { c with modules := reply.next, outbox := c.outbox.add reply.output } = c
    rw [hnext, houtput, Outbox.add_none]

theorem useRegistry?_cases {α : Type}
    (act : ConnectionState → Registry Y → Reply (Registry Y) α) (c : Connection X Y) :
    c.useRegistry? act = none ∧ c.registry? = none ∨
      ∃ registry reply, c.registry? = some registry ∧
        c.useRegistry? act = some (c.settle reply, reply.result) ∧
        reply.result = (act c.state registry).result ∧
        reply.output = (act c.state registry).output ∧
        ∀ carries, (act c.state registry).Conveys carries registry →
          reply.Conveys carries c.modules := by
  have hkind : ∀ m : AnyModule X Y,
      m.viaRegistry? (act c.state) = none ↔ m.asRegistry? = none := by
    intro m
    cases m <;> simp [AnyModule.viaRegistry?, AnyModule.asRegistry?]
  have huse : c.useRegistry? act =
      (Reply.first? (AnyModule.viaRegistry? (act c.state)) c.modules).map
        fun reply => (c.settle reply, reply.result) := rfl
  have hregistry : c.registry? = c.modules.findSome? AnyModule.asRegistry? := rfl
  rw [huse, hregistry]
  rcases Reply.first?_cases hkind c.modules with
    ⟨hnone, hfound⟩ | ⟨m, used, found, reply, hused, hm, hfound, hreply, hresult, houtput, h⟩
  · left
    rw [hnone]
    exact ⟨rfl, hfound⟩
  · right
    cases m with
    | fast fast => cases hm
    | custom m => cases hm
    | registry registry =>
      obtain rfl := Option.some.inj hm
      obtain rfl := Option.some.inj hused
      refine ⟨registry, reply, hfound, by rw [hreply]; rfl, hresult, houtput, ?_⟩
      intro carries hcarries
      exact h carries (hcarries.mapNext AnyModule.registry)

theorem sendFromRegistry_conveys (c : Connection X Y) (name : String) (payload : Bytes) :
    Conveys c (c.Carries (.sendFromRegistry name payload))
      (c.answeredIfAny .outcome (c.sendFromRegistry? name payload)) := by
  unfold sendFromRegistry?
  rcases useRegistry?_cases (fun state registry => registry.send state name payload) c with
    ⟨hnone, hfound⟩ | ⟨registry, reply, hfound, hused, hresult, -, hconveys⟩
  · rw [hnone]
    refine ⟨?_, fun _ => rfl⟩
    rintro ⟨registry, id, hregistry, -⟩
    simp [hfound] at hregistry
  · rw [hused]
    have hcarries : c.Carries (.sendFromRegistry name payload) ↔
        ∃ id, registry.incomingId? name = some id := by
      simp [Carries, hfound]
    rw [hcarries]
    exact settle_conveys (hconveys _ (SubContext.send_conveys _ registry payload)) rfl

theorem grantAllowedFast_conveys (c : Connection X Y) (host : Host) (pieceCount : UInt32) :
    Conveys c (c.Carries (.grantAllowedFast host pieceCount))
      (c.answeredIfAny .granted (c.grantAllowedFast? host pieceCount)) := by
  let grant : FastExtension → Reply FastExtension (List UInt32) :=
    fun fast => fast.grant c.state host pieceCount
  have hkind : ∀ m : AnyModule X Y, m.viaFast? grant = none ↔ m.asFast? = none := by
    intro m
    cases m <;> simp [AnyModule.viaFast?, AnyModule.asFast?]
  have hgrant : c.grantAllowedFast? host pieceCount =
      (Reply.first? (AnyModule.viaFast? grant) c.modules).map
        fun reply => (c.settle reply, reply.result) := rfl
  have hfast : c.fast? = c.modules.findSome? AnyModule.asFast? := rfl
  rw [hgrant]
  rcases Reply.first?_cases hkind c.modules with
    ⟨hnone, hfound⟩ | ⟨m, used, found, reply, hused, hm, hfound, hreply, hresult, -, h⟩
  · rw [hnone]
    refine ⟨?_, fun _ => rfl⟩
    rintro ⟨fast, infoHash, hsome, -⟩
    simp [hfast, hfound] at hsome
  · cases m with
    | registry registry => cases hm
    | custom m => cases hm
    | fast fast =>
      obtain rfl := Option.some.inj hm
      obtain rfl := Option.some.inj hused
      have hcarries : c.Carries (.grantAllowedFast host pieceCount) ↔
          ∃ infoHash, c.state.infoHash = some infoHash ∧
            ∃ piece ∈ AllowedFast.generate infoHash host pieceCount FastExtension.grantSize,
              piece ∉ fast.allowedToPeer := by
        simp [Carries, hfast, hfound]
      have hconveys := (fast.grant_conveys c.state host pieceCount).mapNext
        (AnyModule.fast : FastExtension → AnyModule X Y)
      rw [hreply, hcarries]
      exact settle_conveys (h _ hconveys) rfl

/-- Forgets an operation that no sub-protocol had. -/
def forgetNone {α : Type} :
    Option (Connection X Y × Except Failure (Option α)) → Option (Connection X Y × Except Failure α)
  | some (c, .ok (some a)) => some (c, .ok a)
  | some (_, .ok none) => none
  | some (c, .error failure) => some (c, .error failure)
  | none => none

/-- Using a sub-protocol is using it in the first registry. -/
theorem useSub?_cases {α β : Type}
    {act : SubContext → AnySubProtocol Y → Option (Reply (AnySubProtocol Y) α)}
    {kind : AnySubProtocol Y → Option β}
    (hkind : ∀ context sub, act context sub = none ↔ kind sub = none) (c : Connection X Y) :
    c.useSub? act = none ∧ c.sub? kind = none ∨
      ∃ context sub used found, ∃ reply : Reply (List (AnyModule X Y)) (Option α),
        act context sub = some used ∧ kind sub = some found ∧
        c.sub? kind = some (found, context.remoteId) ∧
        c.useSub? act = some (c.settle reply, used.result) ∧
        reply.result.isOk = used.result.isOk ∧ reply.output = used.output ∧
        ∀ carries, used.Conveys carries sub → reply.Conveys carries c.modules := by
  have huse : c.useSub? act = forgetNone (c.useRegistry? fun state registry =>
      registry.useIfAny state act) := rfl
  rcases useRegistry?_cases (fun state registry => registry.useIfAny state act) c with
    ⟨hnone, hregistry⟩ | ⟨registry, reply, hregistry, hused, hresult, houtput, hconveys⟩
  · left
    rw [huse, hnone, sub?, hregistry]
    exact ⟨rfl, rfl⟩
  · rw [huse, hused, sub?, hregistry]
    rcases registry.use?_cases hkind c.state with
      ⟨hnone, hfound⟩ |
        ⟨context, sub, used, found, subReply, hact, hm, hfound, hreply, hsame, hqueued, h⟩
    · left
      have hnothing : reply.result = .ok none := by
        simp [hresult, Registry.useIfAny, hnone, Reply.ok]
      rw [hnothing]
      exact ⟨rfl, hfound⟩
    · right
      have hin : registry.useIfAny c.state act = subReply.map some := by
        simp [Registry.useIfAny, hreply]
      have hmapped : reply.result = used.result.map some := by
        rw [hresult, hin, ← hsame]
        rfl
      refine ⟨context, sub, used, found, reply, hact, hm, hfound, ?_, ?_, ?_, ?_⟩
      · rw [hmapped]
        cases used.result <;> rfl
      · rw [hmapped]
        cases used.result <;> rfl
      · rw [houtput, hin]
        exact hqueued
      · intro carries hcarries
        apply hconveys
        rw [hin]
        exact (h carries hcarries).map some

theorem sendPeerExchange_conveys (c : Connection X Y) (message : PeerExchange) :
    Conveys c (c.Carries (.sendPeerExchange message))
      (c.answeredIfAny .outcome (c.sendPeerExchange? message)) := by
  have hkind : ∀ context (sub : AnySubProtocol Y),
      sub.exchange? message context = none ↔ sub.asChannel? = none := by
    intro context sub
    cases sub <;> simp [AnySubProtocol.exchange?, AnySubProtocol.asChannel?]
  have hsend : c.sendPeerExchange? message = c.useSub? (AnySubProtocol.exchange? message) := rfl
  have hchannel : c.peerExchange? = c.sub? AnySubProtocol.asChannel? := rfl
  rw [hsend]
  rcases useSub?_cases hkind c with
    ⟨hnone, hfound⟩ | ⟨context, sub, used, found, reply, hact, hm, hfound, hused, hok, -, h⟩
  · rw [hnone]
    refine ⟨?_, fun _ => rfl⟩
    rintro ⟨-, channel, id, hsome⟩
    simp [hchannel, hfound] at hsome
  · cases sub with
    | metadata exchange => cases hm
    | custom sub => cases hm
    | peerExchange channel =>
      obtain rfl := Option.some.inj hm
      obtain rfl := Option.some.inj hact
      have hcarries : c.Carries (.sendPeerExchange message) ↔
          message.isEmpty = false ∧ ∃ id, context.remoteId = some id := by
        simp [Carries, hchannel, hfound]
      have hconveys := (channel.send_conveys context message).mapNext
        (AnySubProtocol.peerExchange : PeerExchangeChannel → AnySubProtocol Y)
      rw [hused, hcarries]
      exact settle_conveys (h _ hconveys) hok.symm

variable [Capability X] [SubProtocol Y]

/-- A call that goes to a module conveys what it carries, whether or not the connection
is up. -/
theorem perform_conveys (c : Connection X Y) (now : Nat) {call : Call X Y} (h : call.IsDirect) :
    Conveys c (c.Carries call) (c.perform now call) := by
  cases call with
  | sendFromRegistry name payload => exact sendFromRegistry_conveys c name payload
  | sendPeerExchange message => exact sendPeerExchange_conveys c message
  | grantAllowedFast host pieceCount => exact grantAllowedFast_conveys c host pieceCount
  | _ => exact h.elim

end Connection
end PeerLink
