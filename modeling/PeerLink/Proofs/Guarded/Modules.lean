import PeerLink.Module.AnyModule
import PeerLink.Proofs.Guarded.SubProtocols
import PeerLink.Proofs.Guarded.Wire

/-!
# Modules that take frames of the peer

The fast extension and the registry of sub-protocols answer a frame with guarded operations.
No operation stops, whatever the frame and whatever came before it.  The registry looks for an
id among those that it gave, and addresses a sub-protocol by the place where it found it; ids
are as many as sub-protocols, so one is there.
-/

namespace PeerLink
namespace Guarded

/-! ## The fast extension -/

/-- The event that a command of the fast extension stands for, if it is one. -/
def readFast : Command → Bytes → Option (Option (Except Failure Event))
  | .suggest, payload => (pieceIndex "suggest" payload).map fun read => some (.suggest <$> read)
  | .haveAll, _ => some (some (.ok .haveAll))
  | .haveNone, _ => some (some (.ok .haveNone))
  | .reject, payload => (range "reject" payload).map fun read => some (.reject <$> read)
  | .allowedFast, payload =>
    (pieceIndex "allowed fast" payload).map fun read => some (.allowedFast <$> read)
  | _, _ => some none

/-- Takes a frame with a command of the fast extension, and passes on any other. -/
def onFast (fast : FastExtension) (command : UInt8) (payload : Bytes) :
    Option (Reply FastExtension Bool) :=
  match Command.ofByte? command with
  | none => some (.ok fast false .none)
  | some command => do
    match ← readFast command payload with
    | none => return .ok fast false .none
    | some (.error failure) => return .fail fast failure .none
    | some (.ok event) => return .ok (fast.note event) true (.ofEvent event)

theorem readFast_eq (command : Command) (payload : Bytes) :
    readFast command payload = some (FastExtension.read? command payload) := by
  cases command with
  | suggest => exact congrArg (Option.map _) (pieceIndex_eq "suggest" payload)
  | reject => exact congrArg (Option.map _) (range_eq "reject" payload)
  | allowedFast => exact congrArg (Option.map _) (pieceIndex_eq "allowed fast" payload)
  | _ => rfl

theorem onFast_eq (fast : FastExtension) (command : UInt8) (payload : Bytes) :
    onFast fast command payload = some (fast.onCommand command payload) := by
  rw [onFast, FastExtension.onCommand]
  cases Command.ofByte? command with
  | none => rfl
  | some command =>
    simp only [readFast_eq, Option.bind_eq_bind, Option.bind_some]
    cases FastExtension.read? command payload with
    | none => rfl
    | some read => cases read <;> rfl

/-! ## Sub-protocols in order -/

/-- Runs the callbacks of several modules in order, up to and including the first that
fails. -/
def each {σ : Type} (act : σ → Option (Reply σ Unit)) : List σ → Option (Reply (List σ) Unit)
  | [] => some (.ok [] () .none)
  | m :: rest => do
    let reply ← act m
    match reply.result with
    | .error failure => return .fail (reply.next :: rest) failure reply.output
    | .ok () => return ((← each act rest).mapNext (reply.next :: ·)).after reply.output

/-- Tells a sub-protocol about a handshake that gives it an id. -/
def greet (state : ConnectionState) (handshake : ExtensionHandshake) (sub : Registered Empty) :
    Option (Reply (Registered Empty) Unit) :=
  match handshake.id? sub.name with
  | none => some (.ok sub () .none)
  | some id => (greetSub sub.handler ⟨state, sub.name, some id⟩ handshake).map (Registry.renew sub)

theorem each_eq {σ : Type} {guarded : σ → Option (Reply σ Unit)} {act : σ → Reply σ Unit}
    (h : ∀ m, guarded m = some (act m)) (modules : List σ) :
    each guarded modules = some (Reply.each act modules) := by
  induction modules with
  | nil => rfl
  | cons m rest ih =>
    rw [each, Reply.each, h, ih]
    simp only [Option.bind_eq_bind, Option.bind_some]
    cases (act m).result <;> rfl

theorem greet_eq (state : ConnectionState) (handshake : ExtensionHandshake)
    (sub : Registered Empty) :
    greet state handshake sub = some (Registry.greet state handshake sub) := by
  rw [greet, Registry.greet]
  cases handshake.id? sub.name with
  | none => rfl
  | some id => exact congrArg (Option.map _) (greetSub_eq sub.handler _ handshake)

/-! ## The registry -/

/-- Takes a handshake of the peer. -/
def receiveHandshake (registry : Registry Empty) (state : ConnectionState) (payload : Bytes) :
    Option (Reply (Registry Empty) Unit) := do
  match ← decodeExtensionHandshake payload with
  | .error failure => return .fail registry failure .none
  | .ok handshake =>
    let reply ← each (greet state handshake) registry.subs
    let remote := match reply.result with
      | .ok () => some handshake
      | .error _ => registry.remote
    return (reply.mapNext fun subs =>
        { registry with subs, incoming := registry.incoming.update handshake.ids, remote }).after
      (.ofEvent (.extendedHandshake handshake))

/-- Gives a message to the sub-protocol at the place of its id among the ids that we gave. -/
def route (registry : Registry Empty) (state : ConnectionState) (id : UInt8) (payload : Bytes) :
    Option (Reply (Registry Empty) Unit) :=
  match (registry.ids.map Prod.snd).idxOf? id with
  | none => some (.fail registry (.unroutable id) .none)
  | some index => do
    let sub ← registry.subs[index]?
    let reply ← onMessage sub.handler (registry.context state sub.name) payload
    return reply.mapNext fun handler =>
      { registry with subs := registry.subs.set index { sub with handler } }

/-- Takes an extended message: a handshake, or a message for a sub-protocol. -/
def onExtended (registry : Registry Empty) (state : ConnectionState) (payload : Bytes) :
    Option (Reply (Registry Empty) Bool) :=
  match payload.head? with
  | none => some (.fail registry (.malformedPayload .missingExtendedId) .none)
  | some id => do
    let body ← slice payload 1 payload.length
    if id = 0 then return (← receiveHandshake registry state body).map fun _ => true
    return Registry.forgiveUnroutable (← route registry state id body)

theorem receiveHandshake_eq {payload : Bytes} (h : payload.length < 2 ^ 64)
    (registry : Registry Empty) (state : ConnectionState) :
    receiveHandshake registry state payload = some (registry.receiveHandshake state payload) := by
  rw [receiveHandshake, Registry.receiveHandshake, decodeExtensionHandshake_eq h]
  cases ExtensionHandshake.decode payload with
  | error failure => rfl
  | ok handshake =>
    have hgreeted := each_eq (greet_eq state handshake) registry.subs
    simp only [Option.bind_eq_bind, Option.bind_some, hgreeted]
    rfl

theorem getElem?_ids (registry : Registry Empty) (index : Nat) :
    (registry.ids.map Prod.snd)[index]? =
      registry.subs[index]?.map fun _ => UInt8.ofNat (index + 1) := by
  simp [Registry.ids, List.getElem?_zipIdx, Function.comp_def]

/-- An id is found one place before its number, if there is a sub-protocol. -/
theorem idxOf?_ids {registry : Registry Empty} {id : UInt8} (hid : id ≠ 0)
    {sub : Registered Empty} (h : registry.subs[id.toNat - 1]? = some sub) :
    (registry.ids.map Prod.snd).idxOf? id = some (id.toNat - 1) := by
  have hlt := id.toNat_lt
  have hpos : 0 < id.toNat := Nat.pos_of_ne_zero fun hzero => hid (UInt8.toNat_inj.mp hzero)
  have hfound := getElem?_ids registry (id.toNat - 1)
  rw [h, Option.map_some, Nat.sub_add_cancel hpos, UInt8.ofNat_toNat] at hfound
  obtain ⟨hplace, hfound⟩ := List.getElem?_eq_some_iff.mp hfound
  refine List.idxOf?_eq_some_iff.mpr ⟨hplace, hfound, fun place hearlier hsame => ?_⟩
  have hother := getElem?_ids registry place
  rw [List.getElem?_eq_getElem (Nat.lt_trans hearlier hplace), hsame] at hother
  obtain ⟨-, -, hnumber⟩ := Option.map_eq_some_iff.mp hother.symm
  have hnumber := congrArg UInt8.toNat hnumber
  rw [UInt8.toNat_ofNat', Nat.mod_eq_of_lt (by omega)] at hnumber
  omega

theorem idxOf?_ids_eq_none {registry : Registry Empty} {id : UInt8}
    (h : registry.subs[id.toNat - 1]? = none) :
    (registry.ids.map Prod.snd).idxOf? id = none := by
  rw [List.idxOf?_eq_none_iff, List.mem_iff_getElem?]
  rintro ⟨place, hplace⟩
  rw [getElem?_ids] at hplace
  obtain ⟨sub, hsub, rfl⟩ := Option.map_eq_some_iff.mp hplace
  have hlength := (List.getElem?_eq_some_iff.mp hsub).1
  have hnone := List.getElem?_eq_none_iff.mp h
  have hmod := Nat.mod_le (place + 1) (2 ^ 8)
  rw [UInt8.toNat_ofNat'] at hnone
  omega

theorem route_eq {registry : Registry Empty} {id : UInt8} (hid : id ≠ 0) {payload : Bytes}
    (h : payload.length < 2 ^ 64) (state : ConnectionState) :
    route registry state id payload = some (registry.route state id payload) := by
  rw [route, Registry.route]
  cases hsub : registry.subs[id.toNat - 1]? with
  | none =>
    rw [idxOf?_ids_eq_none hsub]
  | some sub =>
    rw [idxOf?_ids hid hsub]
    simp [hsub, onMessage_eq h]

theorem onExtended_eq {payload : Bytes} (h : payload.length < 2 ^ 64)
    (registry : Registry Empty) (state : ConnectionState) :
    onExtended registry state payload = some (registry.onCommand state payload) := by
  cases payload with
  | nil => rfl
  | cons id body =>
    have hbody : slice (id :: body) 1 (body.length + 1) = some body := slice_end (by simp)
    have hshorter : body.length < 2 ^ 64 := Nat.lt_of_succ_lt h
    rw [onExtended, Registry.onCommand]
    simp only [List.head?_cons, List.length_cons, hbody, Option.bind_eq_bind, Option.bind_some]
    split
    · rw [receiveHandshake_eq hshorter]
      rfl
    · next hid =>
      rw [route_eq hid hshorter]
      rfl

/-! ## All modules -/

/-- Offers a frame to a module. -/
def onCommand (m : AnyModule Empty Empty) (state : ConnectionState) (command : UInt8)
    (payload : Bytes) : Option (Reply (AnyModule Empty Empty) Bool) :=
  match m with
  | .fast fast => (onFast fast command payload).map (·.mapNext .fast)
  | .registry registry => (onExtended registry state payload).map (·.mapNext .registry)

/-- Offers a frame to the modules that claim its command, in order, up to and including the
first that takes it or fails. -/
def offerAll (state : ConnectionState) (command : UInt8) (payload : Bytes) :
    List (AnyModule Empty Empty) → Option (Reply (List (AnyModule Empty Empty)) Bool)
  | [] => some (.ok [] false .none)
  | m :: rest => do
    if Capability.claims m command then
      let reply ← onCommand m state command payload
      match reply.result with
      | .error failure => return .fail (reply.next :: rest) failure reply.output
      | .ok true => return .ok (reply.next :: rest) true reply.output
      | .ok false =>
        let later ← offerAll state command payload rest
        return (later.mapNext (reply.next :: ·)).after reply.output
    else return (← offerAll state command payload rest).mapNext (m :: ·)

theorem onCommand_eq {payload : Bytes} (h : payload.length < 2 ^ 64)
    (m : AnyModule Empty Empty) (state : ConnectionState) (command : UInt8) :
    onCommand m state command payload = some (Capability.onCommand m state command payload) := by
  cases m with
  | fast fast => exact congrArg (Option.map _) (onFast_eq fast command payload)
  | registry registry => exact congrArg (Option.map _) (onExtended_eq h registry state)
  | custom m => exact m.elim

theorem offerAll_eq {payload : Bytes} (h : payload.length < 2 ^ 64) (state : ConnectionState)
    (command : UInt8) (modules : List (AnyModule Empty Empty)) :
    offerAll state command payload modules =
      some (Capability.offer state command payload modules) := by
  induction modules with
  | nil => rfl
  | cons m rest ih =>
    rw [offerAll, Capability.offer, onCommand_eq h, ih]
    simp only [Option.bind_eq_bind, Option.bind_some]
    split
    · rcases (Capability.onCommand m state command payload).result with failure | (_ | _) <;> rfl
    · rfl

end Guarded
end PeerLink
