import PeerLink.Proofs.Module.Life
import PeerLink.Proofs.Module.Offering

/-!
# What a registry is asked for

A registry changes when its owner registers a sub-protocol, uses one or ends all, and when an
extended message arrives.  Each of these requests adds one sub-protocol behind the others or
leaves them where they are: `Registry.serve_cases`.
-/

namespace PeerLink

namespace AnySubProtocol

variable {Y : Type} [SubProtocol Y]

/-- What a registry can have a sub-protocol do. -/
inductive Works : AnySubProtocol Y → AnySubProtocol Y → Prop where
  | onHandshake (sub : AnySubProtocol Y) (context : SubContext) (handshake : ExtensionHandshake) :
    Works sub (SubProtocol.onHandshake sub context handshake).next
  | onMessage (sub : AnySubProtocol Y) (context : SubContext) (payload : Bytes) :
    Works sub (SubProtocol.onMessage sub context payload).next
  | exchange {sub : AnySubProtocol Y} {message : PeerExchange} {context : SubContext}
      {reply : Reply (AnySubProtocol Y) Unit} (h : sub.exchange? message context = some reply) :
    Works sub reply.next
  | onTeardown (sub : AnySubProtocol Y) : Works sub (SubProtocol.onTeardown sub).1

/-- The sub-protocol does something any number of times. -/
abbrev Used : AnySubProtocol Y → AnySubProtocol Y → Prop := Relation.ReflTransGen Works

end AnySubProtocol

namespace Registered

variable {Y : Type} [SubProtocol Y]

/-- The same sub-protocol, in a state that it went on to by itself. -/
def Continues (sub later : Registered Y) : Prop :=
  later.name = sub.name ∧ sub.handler.Used later.handler

theorem Continues.refl (sub : Registered Y) : sub.Continues sub := ⟨rfl, .refl⟩

theorem Continues.trans {first second third : Registered Y} (h : first.Continues second)
    (h' : second.Continues third) : first.Continues third :=
  ⟨h'.1.trans h.1, h.2.trans h'.2⟩

theorem Continues.of_works {sub : Registered Y} {handler : AnySubProtocol Y}
    (h : sub.handler.Works handler) : sub.Continues { sub with handler } :=
  ⟨rfl, .single h⟩

end Registered

/-! ## Requests -/

namespace Registry

variable {Y : Type} [SubProtocol Y]

/-- What changes a registry: its owner, or an extended message. -/
inductive Request (Y : Type) where
  | register (handler : AnySubProtocol Y)
  | message (state : ConnectionState) (payload : Bytes)
  | exchange (state : ConnectionState) (message : PeerExchange)
  | teardown

/-- The registry after a request.  A sub-protocol that is refused leaves it as it was. -/
def serve (registry : Registry Y) : Request Y → Registry Y
  | .register handler =>
    match registry.register handler with
    | .ok (_, next) => next
    | .error _ => registry
  | .message state payload => (registry.onCommand state payload).next
  | .exchange state message =>
    (registry.useIfAny state (AnySubProtocol.exchange? message)).next
  | .teardown => registry.teardown.1

/-- The registry after some requests. -/
def after (registry : Registry Y) (requests : List (Request Y)) : Registry Y :=
  requests.foldl serve registry

/-- The sub-protocol that a request adds, with the id that is answered. -/
def enrols? (registry : Registry Y) : Request Y → Option (AnySubProtocol Y × UInt8)
  | .register handler =>
    match registry.register handler with
    | .ok (id, _) => some (handler, id)
    | .error _ => none
  | _ => none

/-- The sub-protocols that were added, with the ids that were answered. -/
def enrolled (registry : Registry Y) : List (Request Y) → List (AnySubProtocol Y × UInt8)
  | [] => []
  | request :: rest =>
    (registry.enrols? request).toList ++ (registry.serve request).enrolled rest

@[simp]
theorem after_cons (registry : Registry Y) (request : Request Y) (rest : List (Request Y)) :
    registry.after (request :: rest) = (registry.serve request).after rest := rfl

theorem enrolled_append (registry : Registry Y) (first second : List (Request Y)) :
    registry.enrolled (first ++ second) =
      registry.enrolled first ++ (registry.after first).enrolled second := by
  induction first generalizing registry with
  | nil => rfl
  | cons request rest ih =>
    rw [List.cons_append, enrolled, enrolled, ih, List.append_assoc]
    rfl

/-! ## One request -/

/-- The same sub-protocols are registered, and each went on by itself. -/
structure Keeps (registry next : Registry Y) : Prop where
  names_eq : next.subs.map Registered.name = registry.subs.map Registered.name
  evolves : Evolves Registered.Continues registry.subs next.subs

theorem Keeps.refl (registry : Registry Y) : registry.Keeps registry :=
  ⟨rfl, .refl Registered.Continues.refl _⟩

theorem continues_greet (state : ConnectionState) (handshake : ExtensionHandshake)
    (sub : Registered Y) : sub.Continues (greet state handshake sub).next := by
  rw [greet]
  split
  · exact .refl sub
  · exact .of_works (.onHandshake _ _ _)

theorem keeps_receiveHandshake (registry : Registry Y) (state : ConnectionState)
    (payload : Bytes) : registry.Keeps (registry.receiveHandshake state payload).next := by
  rw [receiveHandshake]
  split
  · exact .refl registry
  · next handshake _ =>
    constructor
    · exact Reply.map_next_each (fun sub => (continues_greet state handshake sub).1) registry.subs
    · exact .each Registered.Continues.refl (continues_greet state handshake) registry.subs

theorem keeps_route (registry : Registry Y) (state : ConnectionState) (id : UInt8)
    (payload : Bytes) : registry.Keeps (registry.route state id payload).next := by
  rw [route]
  dsimp only
  split
  · exact .refl registry
  · next sub hsub =>
    constructor
    · exact names_set hsub _
    · intro place other hother
      change ∃ later, (registry.subs.set _ _)[place]? = some later ∧ _
      by_cases hplace : id.toNat - 1 = place
      · subst hplace
        obtain rfl := Option.some.inj (hsub.symm.trans hother)
        have hindex := (List.getElem?_eq_some_iff.mp hsub).1
        exact ⟨_, List.getElem?_set_self hindex, .of_works (.onMessage _ _ _)⟩
      · rw [List.getElem?_set_ne hplace]
        exact ⟨other, hother, .refl other⟩

theorem keeps_onCommand (registry : Registry Y) (state : ConnectionState) (payload : Bytes) :
    registry.Keeps (registry.onCommand state payload).next := by
  cases payload with
  | nil => exact .refl registry
  | cons id payload =>
    by_cases hid : id = 0
    · rw [onCommand, if_pos hid]
      exact registry.keeps_receiveHandshake state payload
    · rw [(registry.next_onCommand_cons state hid payload).1]
      exact registry.keeps_route state id payload

theorem keeps_exchange (registry : Registry Y) (state : ConnectionState)
    (message : PeerExchange) :
    registry.Keeps (registry.useIfAny state (AnySubProtocol.exchange? message)).next := by
  rw [useIfAny]
  split
  · next reply hreply =>
    obtain ⟨subs, hsubs, rfl⟩ := Option.map_eq_some_iff.mp hreply
    have hstep : ∀ (sub : Registered Y) (renewed : Reply (Registered Y) Unit),
        (sub.handler.exchange? message (registry.context state sub.name)).map (renew sub) =
          some renewed → sub.Continues renewed.next := by
      intro sub renewed hrenewed
      obtain ⟨used, hused, rfl⟩ := Option.map_eq_some_iff.mp hrenewed
      exact .of_works (.exchange hused)
    constructor
    · exact Reply.map_next_first? (fun sub renewed h => (hstep sub renewed h).1) hsubs
    · exact .first? Registered.Continues.refl hstep hsubs
  · exact .refl registry

theorem keeps_teardown (registry : Registry Y) : registry.Keeps registry.teardown.1 := by
  have hsubs : registry.teardown.1.subs =
      registry.subs.map fun sub => { sub with handler := (SubProtocol.onTeardown sub.handler).1 } :=
    List.map_map
  constructor
  · rw [hsubs, List.map_map]
    rfl
  · intro place sub hsub
    rw [hsubs, List.getElem?_map, hsub]
    exact ⟨_, rfl, .of_works (.onTeardown _)⟩

/-- A request adds a sub-protocol behind all others, with the id of its place, or it adds
none and the others go on. -/
theorem serve_cases (registry : Registry Y) (request : Request Y) :
    (∃ handler id, registry.enrols? request = some (handler, id) ∧
        registry.register handler = .ok (id, registry.serve request)) ∨
      registry.enrols? request = none ∧ registry.Keeps (registry.serve request) := by
  cases request with
  | register handler =>
    rw [enrols?, serve]
    cases hregister : registry.register handler with
    | ok answer => exact .inl ⟨handler, answer.1, rfl, hregister⟩
    | error failure => exact .inr ⟨rfl, .refl registry⟩
  | message state payload => exact .inr ⟨rfl, registry.keeps_onCommand state payload⟩
  | exchange state message => exact .inr ⟨rfl, registry.keeps_exchange state message⟩
  | teardown => exact .inr ⟨rfl, registry.keeps_teardown⟩

end Registry
end PeerLink
