import PeerLink.Proofs.Connection.Hearing
import PeerLink.Proofs.Module.Requests

/-!
# Routing by our own ids

Whatever a registry is asked for, the sub-protocols that it accepted stand in the order in
which they were accepted, and their ids count from 1 on.  An extended message goes to the
sub-protocol that has its id, or to nobody: `Registry.routes_by_own_ids`.  The ids of the
peer have no part in this.
-/

namespace PeerLink

namespace Registry

variable {Y : Type} [SubProtocol Y]

/-! ## The sub-protocols that were added -/

/-- A sub-protocol as it was added. -/
def entry (handler : AnySubProtocol Y) : Registered Y := ⟨SubProtocol.name handler, handler⟩

/-- These sub-protocols, added in this order with these ids, are what is registered. -/
structure Lists (registry : Registry Y) (added : List (AnySubProtocol Y × UInt8)) : Prop where
  isNumbered : registry.IsNumbered
  names_eq : registry.subs.map Registered.name = added.map fun known => SubProtocol.name known.1
  ids_eq : (added.map fun known => known.2.toNat) = List.range' 1 added.length
  evolves : Evolves Registered.Continues (added.map fun known => entry known.1) registry.subs

theorem Lists.length_eq {registry : Registry Y} {added : List (AnySubProtocol Y × UInt8)}
    (h : registry.Lists added) : registry.subs.length = added.length := by
  have hlength := congrArg List.length h.names_eq
  rwa [List.length_map, List.length_map] at hlength

theorem lists_nil {registry : Registry Y} (hempty : registry.subs = []) : registry.Lists [] := by
  refine ⟨isNumbered_of_empty hempty, ?_, rfl, ?_⟩
  · rw [hempty]
    rfl
  · rw [hempty]
    exact .refl Registered.Continues.refl []

theorem Lists.keeps {registry next : Registry Y} {added : List (AnySubProtocol Y × UInt8)}
    (h : registry.Lists added) (hkeeps : registry.Keeps next) : next.Lists added where
  isNumbered := h.isNumbered.of_names hkeeps.names_eq
  names_eq := hkeeps.names_eq.trans h.names_eq
  ids_eq := h.ids_eq
  evolves := h.evolves.trans hkeeps.evolves fun _ _ _ => Registered.Continues.trans

theorem Lists.register {registry next : Registry Y} {added : List (AnySubProtocol Y × UInt8)}
    {handler : AnySubProtocol Y} {id : UInt8} (h : registry.Lists added)
    (hregister : registry.register handler = .ok (id, next)) :
    next.Lists (added ++ [(handler, id)]) := by
  obtain ⟨-, hroom, hid, hnext⟩ := register_eq_ok_iff.mp hregister
  have hsubs : next.subs = registry.subs ++ [entry handler] := congrArg subs hnext
  refine ⟨h.isNumbered.register hregister, ?_, ?_, ?_⟩
  · rw [hsubs, List.map_append, List.map_append, h.names_eq]
    rfl
  · -- There was room for one more, so the id did not wrap around.
    have hnat : id.toNat = 1 + added.length := by
      rw [hid, UInt8.toNat_ofNat', h.length_eq]
      rw [h.length_eq] at hroom
      omega
    rw [List.map_append, h.ids_eq, List.map_singleton, hnat, List.length_append,
      List.length_singleton, List.range'_concat, one_mul]
  · rw [hsubs, List.map_append, List.map_singleton]
    exact h.evolves.concat (by rw [List.length_map, h.length_eq]) (.refl _)

theorem Lists.serve {registry : Registry Y} {added : List (AnySubProtocol Y × UInt8)}
    (h : registry.Lists added) (request : Request Y) :
    (registry.serve request).Lists (added ++ (registry.enrols? request).toList) := by
  rcases registry.serve_cases request with ⟨handler, id, henrols, hregister⟩ | ⟨hnone, hkeeps⟩
  · rw [henrols]
    exact h.register hregister
  · rw [hnone, Option.toList_none, List.append_nil]
    exact h.keeps hkeeps

theorem Lists.after {registry : Registry Y} {added : List (AnySubProtocol Y × UInt8)}
    (h : registry.Lists added) (requests : List (Request Y)) :
    (registry.after requests).Lists (added ++ registry.enrolled requests) := by
  induction requests generalizing registry added with
  | nil =>
    rw [enrolled, List.append_nil]
    exact h
  | cons request rest ih =>
    rw [after_cons, enrolled, ← List.append_assoc]
    exact ih (h.serve request)

/-! ## Ids and messages -/

section Routes

variable {registry : Registry Y} {added : List (AnySubProtocol Y × UInt8)}

/-- What was added with an id is found where the id says, in the state that it went on to. -/
theorem Lists.exists_sub (h : registry.Lists added) {index : Nat} {handler : AnySubProtocol Y}
    {id : UInt8} (hadded : added[index]? = some (handler, id)) :
    id = UInt8.ofNat (index + 1) ∧
      ∃ sub, registry.subs[index]? = some sub ∧ (entry handler).Continues sub := by
  constructor
  · obtain ⟨hindex, -⟩ := List.getElem?_eq_some_iff.mp hadded
    have hid : some id.toNat = some (1 + 1 * index) := by
      rw [← List.getElem?_range' hindex, ← h.ids_eq, List.getElem?_map, hadded]
      rfl
    rw [Nat.add_comm, ← Nat.one_mul index, ← Option.some.inj hid, UInt8.ofNat_toNat]
  · apply h.evolves
    rw [List.getElem?_map, hadded]
    rfl

theorem Lists.getElem?_eq_none (h : registry.Lists added) {id : UInt8} (hzero : id ≠ 0)
    (hfree : id ∉ added.map Prod.snd) : registry.subs[id.toNat - 1]? = none := by
  rw [List.getElem?_eq_none_iff, h.length_eq]
  by_contra hlt
  obtain ⟨⟨handler, known⟩, hadded⟩ : ∃ known, added[id.toNat - 1]? = some known :=
    ⟨_, List.getElem?_eq_getElem (Nat.lt_of_not_le hlt)⟩
  have hpos : id.toNat ≠ 0 := fun hnat => hzero (UInt8.toNat_inj.mp hnat)
  obtain ⟨hknown, -⟩ := h.exists_sub hadded
  rw [Nat.sub_add_cancel (Nat.one_le_iff_ne_zero.mpr hpos), UInt8.ofNat_toNat] at hknown
  exact hfree (hknown ▸ List.mem_map_of_mem (List.mem_of_getElem? hadded))

/-- A message for nobody is taken, and nothing comes of it. -/
theorem onCommand_of_getElem?_eq_none {id : UInt8} (hzero : id ≠ 0)
    (hnone : registry.subs[id.toNat - 1]? = none) (state : ConnectionState) (payload : Bytes) :
    registry.onCommand state (id :: payload) = .ok registry true .none := by
  rw [onCommand, if_neg hzero, route]
  dsimp only
  rw [hnone]
  rfl

theorem register_eq (registry : Registry Y) (handler : AnySubProtocol Y) :
    registry.register handler =
      if SubProtocol.name handler ∈ registry.subs.map Registered.name then
        .error (.invalidArgument (.nameTaken (SubProtocol.name handler)))
      else if 255 ≤ registry.subs.length then .error (.invalidArgument .idsExhausted)
      else .ok (UInt8.ofNat (registry.subs.length + 1),
        { registry with subs := registry.subs ++ [entry handler] }) := by
  rw [register]
  simp only [isSome_outgoingId?_iff, Nat.lt_succ_iff]
  rfl

/-- How a registry deals with sub-protocols and extended messages if these sub-protocols were
added to it with these ids. -/
structure Routes (registry : Registry Y) (added : List (AnySubProtocol Y × UInt8)) : Prop where
  /-- The ids are 1, 2, 3 and so on. -/
  ids_eq : (added.map fun known => known.2.toNat) = List.range' 1 added.length
  length_le : added.length ≤ 255
  nodup : (added.map fun known => SubProtocol.name known.1).Nodup
  /-- A further sub-protocol is refused for its name, or if no byte is left. -/
  register_eq : ∀ handler : AnySubProtocol Y, registry.register handler =
    if SubProtocol.name handler ∈ added.map fun known => SubProtocol.name known.1 then
      .error (.invalidArgument (.nameTaken (SubProtocol.name handler)))
    else if added.length = 255 then .error (.invalidArgument .idsExhausted)
    else .ok (UInt8.ofNat (added.length + 1),
      { registry with subs := registry.subs ++ [entry handler] })
  refused : ∀ (handler : AnySubProtocol Y) (failure : Failure),
    registry.register handler = .error failure → registry.serve (.register handler) = registry
  outgoingId?_eq : ∀ known ∈ added,
    registry.outgoingId? (SubProtocol.name known.1) = some known.2
  /-- A message for an id is a call of what was added with it, and of nothing else. -/
  delivers : ∀ (index : Nat) (handler : AnySubProtocol Y) (id : UInt8),
    added[index]? = some (handler, id) → ∃ sub, registry.subs[index]? = some sub ∧
      sub.name = SubProtocol.name handler ∧ handler.Used sub.handler ∧
      ∀ (state : ConnectionState) (payload : Bytes), registry.Delivers index sub
        (SubProtocol.onMessage sub.handler
          ⟨state, SubProtocol.name handler, registry.incomingId? (SubProtocol.name handler)⟩
          payload)
        (registry.onCommand state (id :: payload))
  /-- A message for any other id is dropped. -/
  drops : ∀ id : UInt8, id ≠ 0 → id ∉ added.map Prod.snd →
    ∀ (state : ConnectionState) (payload : Bytes),
      registry.onCommand state (id :: payload) = .ok registry true .none

theorem Lists.outgoingId?_eq (h : registry.Lists added) {known : AnySubProtocol Y × UInt8}
    (hknown : known ∈ added) :
    registry.outgoingId? (SubProtocol.name known.1) = some known.2 := by
  obtain ⟨index, hindex⟩ := List.mem_iff_getElem?.mp hknown
  obtain ⟨hid, sub, hsub, hname, -⟩ := h.exists_sub hindex
  exact h.isNumbered.outgoingId?_eq_some_iff.mpr ⟨index, sub, hsub, hname, hid⟩

theorem Lists.routes (h : registry.Lists added) : registry.Routes added where
  ids_eq := h.ids_eq
  length_le := h.length_eq ▸ h.isNumbered.length_le
  nodup := h.names_eq ▸ h.isNumbered.nodup
  register_eq := by
    intro handler
    have hle : added.length ≤ 255 := h.length_eq ▸ h.isNumbered.length_le
    have hfull : 255 ≤ added.length ↔ added.length = 255 := hle.ge_iff_eq
    rw [registry.register_eq, h.names_eq, h.length_eq]
    simp only [hfull]
  refused := by
    intro handler failure hregister
    rw [Registry.serve, hregister]
  outgoingId?_eq := fun _ => h.outgoingId?_eq
  delivers := by
    intro index handler id hadded
    obtain ⟨rfl, sub, hsub, hname, hused⟩ := h.exists_sub hadded
    refine ⟨sub, hsub, hname, hused, ?_⟩
    intro state payload
    have hdelivers := h.isNumbered.onCommand_delivers hsub state payload
    rw [context, hname] at hdelivers
    exact hdelivers
  drops := by
    intro id hzero hfree
    exact onCommand_of_getElem?_eq_none hzero (h.getElem?_eq_none hzero hfree)

end Routes

end Registry

/-! ## On a connection -/

section Connections

variable {X Y : Type} [Capability X] [SubProtocol Y] {registry : Registry Y}
  {front : List (AnyModule X Y)}

/-- Where no module in front of it claims extended messages, a registry is all that sees
them. -/
theorem AnyModule.offer_registry
    (hfront : ∀ m ∈ front, Capability.claims m Command.extended.toByte = false)
    (back : List (AnyModule X Y)) (state : ConnectionState) (payload : Bytes) :
    Capability.offer state Command.extended.toByte payload (front ++ .registry registry :: back) =
      (registry.onCommand state payload).mapNext fun next => front ++ .registry next :: back := by
  induction front with
  | nil =>
    have hclaims : Capability.claims (AnyModule.registry (X := X) registry)
        Command.extended.toByte = true := claims_registry_iff.mpr rfl
    have hcall : Capability.onCommand (AnyModule.registry (X := X) registry) state
        Command.extended.toByte payload =
          (registry.onCommand state payload).mapNext .registry := rfl
    rw [List.nil_append, Capability.offer, if_pos hclaims, hcall]
    cases hresult : (registry.onCommand state payload).result with
    | error failure => simp [Reply.mapNext, Reply.fail, hresult]
    | ok taken =>
      cases taken with
      | true => simp [Reply.mapNext, Reply.ok, hresult]
      | false => exact absurd hresult (registry.onCommand_result_ne state payload)
  | cons m rest ih =>
    obtain ⟨hm, hrest⟩ := List.forall_mem_cons.mp hfront
    rw [List.cons_append, Capability.offer, hm, ih hrest]
    rfl

/-- A connection drops what its registry drops. -/
theorem Connection.dispatch_of_dropped {c : Connection X Y} {back : List (AnyModule X Y)}
    (hmodules : c.modules = front ++ .registry registry :: back)
    (hfront : ∀ m ∈ front, Capability.claims m Command.extended.toByte = false)
    {payload : Bytes} (hdrop : registry.onCommand c.state payload = .ok registry true .none)
    (length : UInt32) :
    c.dispatch (.message Command.extended.toByte length payload) = (c, none) := by
  have hoffer : Capability.offer c.state Command.extended.toByte payload c.modules =
      .ok c.modules true .none := by
    rw [hmodules, AnyModule.offer_registry hfront, hdrop]
    rfl
  have hdispatch : c.dispatch (.message Command.extended.toByte length payload) =
      c.offer Command.extended.toByte payload := rfl
  have hsettle : c.settle (.ok c.modules true .none) = c := by
    simp [Connection.settle, Reply.ok]
  rw [hdispatch, Connection.offer, hoffer, hsettle]
  rfl

/-- A registry that began without sub-protocols routes by the ids that it answered, whatever
it was asked for and whatever ids the peer gave.  These ids stay, and a connection drops the
messages that bear no such id. -/
theorem Registry.routes_by_own_ids (hempty : registry.subs = []) (requests : List (Request Y)) :
    (registry.after requests).Routes (registry.enrolled requests) ∧
      (∀ (later : List (Request Y)), ∀ known ∈ registry.enrolled requests,
        (registry.after (requests ++ later)).outgoingId? (SubProtocol.name known.1) =
          some known.2) ∧
      ∀ (c : Connection X Y) (front back : List (AnyModule X Y)),
        c.modules = front ++ .registry (registry.after requests) :: back →
        (∀ m ∈ front, Capability.claims m Command.extended.toByte = false) →
        (∀ (state : ConnectionState) (payload : Bytes),
          Capability.offer state Command.extended.toByte payload c.modules =
            ((registry.after requests).onCommand state payload).mapNext fun next =>
              front ++ .registry next :: back) ∧
        ∀ (length : UInt32) (id : UInt8) (payload : Bytes), id ≠ 0 →
          id ∉ (registry.enrolled requests).map Prod.snd →
          c.dispatch (.message Command.extended.toByte length (id :: payload)) = (c, none) := by
  have hlists : ∀ requests, (registry.after requests).Lists (registry.enrolled requests) :=
    (lists_nil hempty).after
  have hroutes := (hlists requests).routes
  refine ⟨hroutes, ?_, ?_⟩
  · intro later known hknown
    apply (hlists (requests ++ later)).outgoingId?_eq
    rw [enrolled_append]
    exact List.mem_append_left _ hknown
  · intro c front back hmodules hfront
    constructor
    · intro state payload
      rw [hmodules]
      exact AnyModule.offer_registry hfront back state payload
    · intro length id payload hzero hfree
      exact c.dispatch_of_dropped hmodules hfront (hroutes.drops id hzero hfree _ _) length

end Connections

/-- The peer gave the id 7 to the exchange of peers and we gave 2, as the exchange of metadata is
refused the second time.  A message that bears 2 arrives, and one that bears 7 is dropped, also
on a connection that has the fast extension in front. -/
theorem Registry.routes_by_own_ids_of_refused :
    let registry : Registry Empty := { Registry.new with incoming := [("ut_pex", 7)] }
    let requests : List (Request Empty) :=
      [.register (.metadata .fetching), .register (.metadata .fetching), .message .initial [0, 1],
        .register (.peerExchange .new)]
    let now := registry.after requests
    let bare : Connection Empty Empty := .new (.new true) .standard 0
    let c : Connection Empty Empty := { bare with modules := [.fast .empty, .registry now] }
    registry.subs = [] ∧ now.incomingId? "ut_pex" = some 7 ∧ now.outgoingId? "ut_pex" = some 2 ∧
      (now.onCommand .initial [2, 100, 101]).output =
        .ofEvent (.peerExchange ⟨[], [], [], []⟩) ∧
      now.onCommand .initial [7, 100, 101] = .ok now true .none ∧
      c.dispatch (.message Command.extended.toByte 4 [7, 100, 101]) = (c, none) := by
  intro registry requests now bare c
  have henrolled : registry.enrolled requests =
      [(.metadata .fetching, 1), (.peerExchange .new, 2)] := by rfl
  have hfree : 7 ∉ (registry.enrolled requests).map Prod.snd := by
    rw [henrolled]
    decide
  have hempty : registry.subs = [] := rfl
  obtain ⟨hroutes, -, hconnection⟩ := routes_by_own_ids (X := Empty) hempty requests
  refine ⟨hempty, by rfl, ?_, ?_, ?_, ?_⟩
  · exact hroutes.outgoingId?_eq (.peerExchange .new, 2) (by simp [henrolled])
  · obtain ⟨sub, hsub, -, -, hdelivers⟩ :=
      hroutes.delivers 1 (.peerExchange .new) 2 (by rw [henrolled]; rfl)
    obtain rfl : ⟨"ut_pex", .peerExchange .new⟩ = sub := Option.some.inj hsub
    have hread : (PeerExchangeChannel.new.onMessage [100, 101]).output =
        .ofEvent (.peerExchange ⟨[], [], [], []⟩) := by decide +kernel
    exact (hdelivers .initial [100, 101]).output_eq.trans hread
  · exact hroutes.drops 7 (by decide) hfree .initial [100, 101]
  · exact (hconnection c [.fast .empty] [] rfl (by decide)).2 4 7 [100, 101] (by decide) hfree

end PeerLink
