import PeerLink.Proofs.Extension.RoundTrip
import PeerLink.Proofs.Module.Refusal
import PeerLink.Proofs.Module.Requests

/-!
# The ids that the peer gave

An extension handshake that cannot be read changes nothing.  Any other is told first, enters
the table, and goes on to the sub-protocols that it gives an id.  So the id of a name is the
one in the last handshake that lists it, and none if that is 0: `Registry.tracks_peer_ids`.
-/

namespace PeerLink

/-! ## Callbacks for a handshake -/

theorem Output.IsUnheard.join {outputs : List Output} (h : ∀ output ∈ outputs, output.IsUnheard) :
    (join outputs).IsUnheard := by
  induction outputs with
  | nil => rfl
  | cons output rest ih =>
    obtain ⟨hfirst, hrest⟩ := List.forall_mem_cons.mp h
    exact admitsMessages_isUnheard.append hfirst (ih hrest)

/-- A sub-protocol takes every handshake that gives it an id, and raises no event.  Those of this
library do. -/
structure SubProtocol.GreetsQuietly (σ : Type) [SubProtocol σ] : Prop where
  result_eq : ∀ (sub : σ) (context : SubContext) (handshake : ExtensionHandshake),
    context.remoteId ≠ none → (SubProtocol.onHandshake sub context handshake).result = .ok ()
  unheard : ∀ (sub : σ) (context : SubContext) (handshake : ExtensionHandshake),
    (SubProtocol.onHandshake sub context handshake).output.IsUnheard

theorem SubProtocol.greetsQuietly_empty : SubProtocol.GreetsQuietly Empty :=
  ⟨fun sub => sub.elim, fun sub => sub.elim⟩

theorem MetadataExchange.onHandshake_unheard (exchange : MetadataExchange) (context : SubContext)
    (handshake : ExtensionHandshake) :
    (exchange.onHandshake context handshake).output.IsUnheard := by
  rw [onHandshake]
  split
  · rfl
  · split
    · rfl
    · dsimp only
      split
      · rfl
      · rfl

theorem AnySubProtocol.greetsQuietly {Y : Type} [SubProtocol Y]
    (hY : SubProtocol.GreetsQuietly Y) : SubProtocol.GreetsQuietly (AnySubProtocol Y) := by
  constructor
  · intro sub context handshake h
    cases sub with
    | metadata exchange => exact exchange.onHandshake_result handshake h
    | peerExchange channel => rfl
    | custom sub => exact hY.result_eq sub context handshake h
  · intro sub context handshake
    cases sub with
    | metadata exchange => exact exchange.onHandshake_unheard context handshake
    | peerExchange channel => rfl
    | custom sub => exact hY.unheard sub context handshake

/-! ## One handshake -/

theorem ExtensionHandshake.id?_eq_some_iff {handshake : ExtensionHandshake}
    (hnames : (handshake.ids.map Prod.fst).Nodup) {name : String} {id : UInt8} :
    handshake.id? name = some id ↔ (name, id) ∈ handshake.ids ∧ id ≠ 0 := by
  rw [id?, Option.filter_eq_some_iff, bne_iff_ne, ← IdTable.id?_eq_some_iff hnames]
  rfl

namespace Registry

variable {Y : Type}

/-- The sub-protocols that a handshake gives an id, in order of registration, each with the
id. -/
def addressed (registry : Registry Y) (handshake : ExtensionHandshake) :
    List (Registered Y × UInt8) :=
  registry.subs.filterMap fun sub => (handshake.id? sub.name).map (sub, ·)

theorem mem_addressed_iff {registry : Registry Y} {handshake : ExtensionHandshake}
    (hnames : (handshake.ids.map Prod.fst).Nodup) {sub : Registered Y} {id : UInt8} :
    (sub, id) ∈ registry.addressed handshake ↔
      sub ∈ registry.subs ∧ (sub.name, id) ∈ handshake.ids ∧ id ≠ 0 := by
  rw [← ExtensionHandshake.id?_eq_some_iff hnames, addressed, List.mem_filterMap]
  constructor
  · rintro ⟨found, hfound, hid⟩
    obtain ⟨known, hknown, heq⟩ := Option.map_eq_some_iff.mp hid
    obtain ⟨rfl, rfl⟩ := Prod.mk.inj heq
    exact ⟨hfound, hknown⟩
  · rintro ⟨hsub, hid⟩
    exact ⟨sub, hsub, Option.map_eq_some_iff.mpr ⟨id, hid, rfl⟩⟩

theorem map_fst_addressed (registry : Registry Y) (handshake : ExtensionHandshake) :
    (registry.addressed handshake).map Prod.fst =
      registry.subs.filter fun sub => (handshake.id? sub.name).isSome := by
  rw [addressed, List.map_filterMap, ← List.filterMap_eq_filter]
  apply List.filterMap_congr
  intro sub _
  cases h : handshake.id? sub.name <;> simp [Option.guard, h]

variable [SubProtocol Y]

/-- Calls a sub-protocol for a handshake that gives it an id. -/
def welcome (state : ConnectionState) (handshake : ExtensionHandshake)
    (known : Registered Y × UInt8) : Reply (AnySubProtocol Y) Unit :=
  SubProtocol.onHandshake known.1.handler ⟨state, known.1.name, some known.2⟩ handshake

/-- What becomes of a sub-protocol by a handshake. -/
def welcomed (state : ConnectionState) (handshake : ExtensionHandshake) (sub : Registered Y) :
    Registered Y :=
  match handshake.id? sub.name with
  | none => sub
  | some id => { sub with handler := (welcome state handshake (sub, id)).next }

/-- How a handshake is taken: it is told, and then the sub-protocols that it gives an id are
called, in order of registration and each with its id. -/
structure Takes (registry : Registry Y) (state : ConnectionState)
    (handshake : ExtensionHandshake) (reply : Reply (Registry Y) Bool) : Prop where
  result_eq : reply.result = .ok true
  callees_eq : (registry.addressed handshake).map Prod.fst =
    registry.subs.filter fun sub => (handshake.id? sub.name).isSome
  mem_addressed_iff : ∀ sub id, (sub, id) ∈ registry.addressed handshake ↔
    sub ∈ registry.subs ∧ (sub.name, id) ∈ handshake.ids ∧ id ≠ 0
  output_eq : reply.output = .ofEvent (.extendedHandshake handshake) ++
    .join ((registry.addressed handshake).map fun known => (welcome state handshake known).output)
  events_eq : reply.output.events = [.extendedHandshake handshake]
  next_eq : reply.next =
    { registry with
      subs := registry.subs.map (welcomed state handshake)
      incoming := registry.incoming.update handshake.ids
      remote := some handshake }

theorem next_greet (state : ConnectionState) (handshake : ExtensionHandshake)
    (sub : Registered Y) : (greet state handshake sub).next = welcomed state handshake sub := by
  rw [greet, welcomed]
  cases handshake.id? sub.name with
  | none => rfl
  | some id => rfl

theorem join_greet (state : ConnectionState) (handshake : ExtensionHandshake)
    (registry : Registry Y) :
    Output.join (registry.subs.map fun sub => (greet state handshake sub).output) =
      .join ((registry.addressed handshake).map fun known =>
        (welcome state handshake known).output) := by
  rw [addressed]
  induction registry.subs with
  | nil => rfl
  | cons sub rest ih =>
    rw [List.map_cons, List.filterMap_cons]
    change (greet state handshake sub).output ++ Output.join _ = _
    rw [ih, greet]
    cases handshake.id? sub.name with
    | none => rfl
    | some id => rfl

section Greeting

variable (hY : SubProtocol.GreetsQuietly Y)
include hY

/-- A handshake that is read is taken. -/
theorem takes_of_decode (registry : Registry Y) (state : ConnectionState) {payload : Bytes}
    {handshake : ExtensionHandshake} (hdecode : ExtensionHandshake.decode payload = .ok handshake) :
    registry.Takes state handshake (registry.onCommand state (0 :: payload)) := by
  have hnames := (ExtensionHandshake.isReceivable_of_decode hdecode).names_nodup
  have hgreet : ∀ sub ∈ registry.subs, (greet state handshake sub).result = .ok () := by
    intro sub _
    apply greet_result_eq_ok
    intro id
    exact (AnySubProtocol.greetsQuietly hY).result_eq sub.handler _ handshake
      (Option.some_ne_none id)
  have heach := Reply.each_of_ok hgreet
  rw [join_greet] at heach
  simp only [next_greet] at heach
  have hreply : registry.onCommand state (0 :: payload) =
      .ok { registry with
          subs := registry.subs.map (welcomed state handshake)
          incoming := registry.incoming.update handshake.ids
          remote := some handshake } true
        (.ofEvent (.extendedHandshake handshake) ++ .join ((registry.addressed handshake).map
          fun known => (welcome state handshake known).output)) := by
    rw [onCommand, if_pos rfl, receiveHandshake, hdecode]
    dsimp only
    rw [heach]
    rfl
  have hquiet : (Output.join ((registry.addressed handshake).map fun known =>
      (welcome state handshake known).output)).IsUnheard := by
    apply Output.IsUnheard.join
    intro output houtput
    obtain ⟨known, -, rfl⟩ := List.mem_map.mp houtput
    exact (AnySubProtocol.greetsQuietly hY).unheard known.1.handler _ handshake
  rw [hreply]
  refine ⟨rfl, registry.map_fst_addressed handshake, ?_, rfl, ?_, rfl⟩
  · intro sub id
    exact Registry.mem_addressed_iff hnames
  · exact congrArg (Event.extendedHandshake handshake :: ·) hquiet

/-- A handshake is refused, and nothing comes of it, or it is taken. -/
theorem onCommand_handshake_cases (registry : Registry Y) (state : ConnectionState)
    (payload : Bytes) :
    (∃ failure, ExtensionHandshake.decode payload = .error failure ∧
        registry.onCommand state (0 :: payload) = .fail registry failure .none) ∨
      ∃ handshake, ExtensionHandshake.decode payload = .ok handshake ∧
        registry.Takes state handshake (registry.onCommand state (0 :: payload)) := by
  cases hdecode : ExtensionHandshake.decode payload with
  | error failure =>
    left
    refine ⟨failure, rfl, ?_⟩
    rw [onCommand, if_pos rfl, receiveHandshake, hdecode]
    rfl
  | ok handshake => exact .inr ⟨handshake, rfl, takes_of_decode hY registry state hdecode⟩

end Greeting

/-! ## All requests -/

/-- The handshake that a request brings, if it can be read. -/
def Request.handshake? : Request Y → Option ExtensionHandshake
  | .message _ (0 :: payload) => (ExtensionHandshake.decode payload).toOption
  | _ => none

/-- The handshakes that were read, in order of arrival. -/
def heard (requests : List (Request Y)) : List ExtensionHandshake :=
  requests.filterMap Request.handshake?

/-- What the last of the handshakes that list a name lists for it. -/
def lastListed? (handshakes : List ExtensionHandshake) (name : String) : Option UInt8 :=
  handshakes.reverse.findSome? (·.ids.lookup name)

omit [SubProtocol Y] in
theorem heard_cons (request : Request Y) (rest : List (Request Y)) :
    heard (request :: rest) = request.handshake?.toList ++ heard rest := by
  rw [heard, List.filterMap_cons]
  cases request.handshake? with
  | none => rfl
  | some handshake => rfl

theorem lastListed?_append (earlier later : List ExtensionHandshake) (name : String) :
    lastListed? (earlier ++ later) name =
      (lastListed? later name).or (lastListed? earlier name) := by
  rw [lastListed?, List.reverse_append, List.findSome?_append]
  rfl

theorem subs_route (registry : Registry Y) (state : ConnectionState) (id : UInt8)
    (payload : Bytes) :
    ∃ subs, (registry.route state id payload).next = { registry with subs } := by
  rw [route]
  dsimp only
  split
  · exact ⟨registry.subs, rfl⟩
  · exact ⟨_, rfl⟩

/-- Without a handshake that can be read, a request leaves the tables alone. -/
theorem serve_of_handshake?_eq_none (registry : Registry Y) {request : Request Y}
    (h : request.handshake? = none) :
    ∃ subs, registry.serve request = { registry with subs } := by
  cases request with
  | register handler =>
    rw [serve]
    split
    · next id next hregister =>
      obtain ⟨-, -, -, rfl⟩ := register_eq_ok_iff.mp hregister
      exact ⟨_, rfl⟩
    · exact ⟨registry.subs, rfl⟩
  | message state payload =>
    rw [serve]
    cases payload with
    | nil => exact ⟨registry.subs, rfl⟩
    | cons id payload =>
      by_cases hid : id = 0
      · -- The handshake is read before anything is changed, so one that cannot be read leaves all.
        subst hid
        have hrefused : ∃ failure, ExtensionHandshake.decode payload = .error failure := by
          cases hdecode : ExtensionHandshake.decode payload with
          | error failure => exact ⟨failure, rfl⟩
          | ok handshake =>
            rw [Request.handshake?, hdecode] at h
            cases h
        obtain ⟨failure, hdecode⟩ := hrefused
        rw [onCommand, if_pos rfl, receiveHandshake, hdecode]
        exact ⟨registry.subs, rfl⟩
      · rw [(registry.next_onCommand_cons state hid payload).1]
        exact registry.subs_route state id payload
  | exchange state message =>
    rw [serve, useIfAny]
    split
    · next reply hreply =>
      obtain ⟨subs, -, rfl⟩ := Option.map_eq_some_iff.mp hreply
      exact ⟨subs.next, rfl⟩
    · exact ⟨registry.subs, rfl⟩
  | teardown => exact ⟨_, rfl⟩

omit [SubProtocol Y] in
theorem exists_message_of_handshake? {request : Request Y} {handshake : ExtensionHandshake}
    (h : request.handshake? = some handshake) :
    ∃ state payload, request = .message state (0 :: payload) ∧
      ExtensionHandshake.decode payload = .ok handshake := by
  unfold Request.handshake? at h
  split at h
  · next state payload =>
    cases hdecode : ExtensionHandshake.decode payload with
    | error failure =>
      rw [hdecode] at h
      cases h
    | ok found =>
      rw [hdecode] at h
      obtain rfl := Option.some.inj h
      exact ⟨state, payload, rfl, hdecode⟩
  · cases h

section Tables

variable (hY : SubProtocol.GreetsQuietly Y)
include hY

theorem serve_of_handshake? (registry : Registry Y) {request : Request Y}
    {handshake : ExtensionHandshake} (h : request.handshake? = some handshake) :
    (handshake.ids.map Prod.fst).Nodup ∧
      (registry.serve request).incoming = registry.incoming.update handshake.ids ∧
      (registry.serve request).remote = some handshake := by
  obtain ⟨state, payload, rfl, hdecode⟩ := exists_message_of_handshake? h
  have hnext := (takes_of_decode hY registry state hdecode).next_eq
  have hserve : registry.serve (.message state (0 :: payload)) =
      (registry.onCommand state (0 :: payload)).next := rfl
  rw [hserve, hnext]
  exact ⟨(ExtensionHandshake.isReceivable_of_decode hdecode).names_nodup, rfl, rfl⟩

theorem incomingId?_serve (registry : Registry Y) (request : Request Y) (name : String) :
    (registry.serve request).incomingId? name =
      match lastListed? request.handshake?.toList name with
      | some id => if id = 0 then none else some id
      | none => registry.incomingId? name := by
  cases h : request.handshake? with
  | none =>
    obtain ⟨subs, hserve⟩ := registry.serve_of_handshake?_eq_none h
    rw [hserve]
    rfl
  | some handshake =>
    obtain ⟨hnames, hincoming, -⟩ := serve_of_handshake? hY registry h
    have hlisted : lastListed? [handshake] name = handshake.ids.lookup name :=
      List.findSome?_singleton
    rw [Option.toList_some, hlisted, incomingId?, hincoming, IdTable.id?_update hnames]
    rfl

theorem remote_serve (registry : Registry Y) (request : Request Y) :
    (registry.serve request).remote = request.handshake?.or registry.remote := by
  cases h : request.handshake? with
  | none =>
    obtain ⟨subs, hserve⟩ := registry.serve_of_handshake?_eq_none h
    rw [hserve]
    rfl
  | some handshake => exact (serve_of_handshake? hY registry h).2.2

/-- A name has the id that was listed for it last, unless that is 0. -/
theorem incomingId?_after (registry : Registry Y) (requests : List (Request Y)) (name : String) :
    (registry.after requests).incomingId? name =
      match lastListed? (heard requests) name with
      | some id => if id = 0 then none else some id
      | none => registry.incomingId? name := by
  induction requests generalizing registry with
  | nil => rfl
  | cons request rest ih =>
    rw [after_cons, ih, incomingId?_serve hY, heard_cons, lastListed?_append]
    cases lastListed? (heard rest) name with
    | none => rfl
    | some id => rfl

theorem remote_after (registry : Registry Y) (requests : List (Request Y)) :
    (registry.after requests).remote = (heard requests).getLast?.or registry.remote := by
  induction requests generalizing registry with
  | nil => rfl
  | cons request rest ih =>
    rw [after_cons, ih, remote_serve hY, heard_cons, List.getLast?_append, Option.or_assoc]
    cases request.handshake? with
    | none => rfl
    | some handshake => rfl

/-- Whatever a registry without ids of the peer was asked for, it refuses or takes the next
handshake as a whole, has the last one that it took, and knows for every name what the last
handshake that listed it gave, and no id if that was 0. -/
theorem tracks_peer_ids {registry : Registry Y} (hfresh : registry.incoming = [])
    (requests : List (Request Y)) :
    let now := registry.after requests
    (∀ (state : ConnectionState) (payload : Bytes),
        (∃ failure, ExtensionHandshake.decode payload = .error failure ∧
          now.onCommand state (0 :: payload) = .fail now failure .none) ∨
        ∃ handshake, ExtensionHandshake.decode payload = .ok handshake ∧
          now.Takes state handshake (now.onCommand state (0 :: payload))) ∧
      now.remote = (heard requests).getLast?.or registry.remote ∧
      ∀ name, now.incomingId? name = (lastListed? (heard requests) name).filter (· != 0) ∧
        now.incomingId? name ≠ some 0 := by
  intro now
  have hids : ∀ name,
      now.incomingId? name = (lastListed? (heard requests) name).filter (· != 0) := by
    intro name
    have hnone : registry.incomingId? name = none := by
      rw [incomingId?, hfresh]
      rfl
    rw [incomingId?_after hY registry requests name, hnone]
    cases lastListed? (heard requests) name with
    | none => rfl
    | some id => by_cases hid : id = 0 <;> simp [Option.filter, hid]
  refine ⟨onCommand_handshake_cases hY now, remote_after hY registry requests, ?_⟩
  intro name
  refine ⟨hids name, ?_⟩
  rw [hids]
  intro hzero
  exact absurd rfl (bne_iff_ne.mp (Option.filter_eq_some_iff.mp hzero).2)

end Tables

/-- The peer gives ids to both sub-protocols, then sends a table with an id that is no byte, and
then disables the exchange of peers. -/
theorem tracks_peer_ids_of_disabled :
    let registry : Registry Empty :=
      ⟨[⟨"ut_metadata", .metadata .fetching⟩, ⟨"ut_pex", .peerExchange .new⟩], [], none, none, none⟩
    let both := Bytes.ofText "d1:md11:ut_metadatai3e6:ut_pexi5eee"
    let broken := Bytes.ofText "d1:md11:ut_metadatai9e6:ut_pexi300eee"
    let disabling := Bytes.ofText "d1:md6:ut_pexi0eee"
    let requests : List (Request Empty) :=
      [.message .initial (0 :: both), .message .initial (0 :: broken),
        .message .initial (0 :: disabling)]
    let now := registry.after requests
    registry.incoming = [] ∧
      now.remote = some { ExtensionHandshake.empty with ids := [("ut_pex", 0)] } ∧
      now.incomingId? "ut_metadata" = some 3 ∧ now.incomingId? "ut_pex" = none ∧
      ∃ failure, now.onCommand .initial (0 :: broken) = .fail now failure .none := by
  intro registry both broken disabling requests now
  have hheard : heard requests =
      [{ ExtensionHandshake.empty with ids := [("ut_metadata", 3), ("ut_pex", 5)] },
        { ExtensionHandshake.empty with ids := [("ut_pex", 0)] }] := by decide +kernel
  have hfresh : registry.incoming = [] := rfl
  obtain ⟨htaken, hremote, hids⟩ :=
    tracks_peer_ids SubProtocol.greetsQuietly_empty hfresh requests
  rw [hheard] at hremote
  simp only [hheard] at hids
  refine ⟨hfresh, hremote, (hids "ut_metadata").1, (hids "ut_pex").1, ?_⟩
  rcases htaken .initial broken with ⟨failure, -, hrefused⟩ | ⟨handshake, hdecode, -⟩
  · exact ⟨failure, hrefused⟩
  · have hbroken : (ExtensionHandshake.decode broken).toOption = none := by decide +kernel
    rw [hdecode] at hbroken
    cases hbroken

end Registry
end PeerLink
