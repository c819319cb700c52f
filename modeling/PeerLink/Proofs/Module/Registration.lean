import Mathlib.Data.List.Nodup
import PeerLink.Proofs.Extension.Handshake
import PeerLink.Proofs.Module.Output

/-!
# The ids of registered sub-protocols

Registering sub-protocols numbers them from 1 on under distinct names.  So a name
and its id determine each other, and a message with an id goes to one handler.
-/

namespace PeerLink
namespace Registry

variable {Y : Type} {registry next : Registry Y}

/-! ## Names and ids -/

/-- Names are distinct, and there is an id for each of them. -/
structure IsNumbered (registry : Registry Y) : Prop where
  nodup : (registry.subs.map Registered.name).Nodup
  length_le : registry.subs.length ≤ 255

theorem isNumbered_of_empty (hempty : registry.subs = []) : registry.IsNumbered := by
  constructor
  · rw [hempty]
    exact List.nodup_nil
  · rw [hempty]
    exact Nat.zero_le _

theorem IsNumbered.of_names (h : registry.IsNumbered)
    (hnames : next.subs.map Registered.name = registry.subs.map Registered.name) :
    next.IsNumbered := by
  constructor
  · rw [hnames]
    exact h.nodup
  · have hlength := congrArg List.length hnames
    rw [List.length_map, List.length_map] at hlength
    exact hlength ▸ h.length_le

theorem keys_ids (registry : Registry Y) :
    registry.ids.map Prod.fst = registry.subs.map Registered.name := by
  rw [ids, List.map_map]
  change registry.subs.zipIdx.map (Registered.name ∘ Prod.fst) = _
  rw [← List.map_map, List.zipIdx_map_fst]

theorem mem_ids_iff {name : String} {id : UInt8} :
    (name, id) ∈ registry.ids ↔ ∃ index sub, registry.subs[index]? = some sub ∧
      sub.name = name ∧ id = UInt8.ofNat (index + 1) := by
  constructor
  · intro h
    obtain ⟨⟨sub, index⟩, hsub, hid⟩ := List.mem_map.mp h
    obtain ⟨rfl, rfl⟩ := Prod.mk.inj hid
    exact ⟨index, sub, List.mk_mem_zipIdx_iff_getElem?.mp hsub, rfl, rfl⟩
  · rintro ⟨index, sub, hsub, rfl, rfl⟩
    exact List.mem_map.mpr ⟨(sub, index), List.mk_mem_zipIdx_iff_getElem?.mpr hsub, rfl⟩

theorem isSome_outgoingId?_iff {name : String} :
    (registry.outgoingId? name).isSome = true ↔ name ∈ registry.subs.map Registered.name := by
  rw [← keys_ids, outgoingId?, List.lookup_isSome_iff, List.mem_map]
  exact exists_congr fun entry => and_congr_right fun _ => beq_iff_eq.trans eq_comm

theorem ids_eq_of_names (h : next.subs.map Registered.name = registry.subs.map Registered.name) :
    next.ids = registry.ids := by
  have hids : ∀ r : Registry Y, r.ids = (r.subs.map Registered.name).zipIdx.map
      fun (name, index) => (name, UInt8.ofNat (index + 1)) := by
    intro r
    rw [List.zipIdx_map, List.map_map]
    rfl
  rw [hids, hids, h]

/-- A sub-protocol that went on keeps its name. -/
theorem names_set {index : Nat} {sub : Registered Y} (hsub : registry.subs[index]? = some sub)
    (handler : AnySubProtocol Y) :
    (registry.subs.set index { sub with handler }).map Registered.name =
      registry.subs.map Registered.name := by
  obtain ⟨hindex, rfl⟩ := List.getElem?_eq_some_iff.mp hsub
  rw [List.map_set]
  dsimp only
  rw [← List.getElem_map Registered.name (h := by simpa using hindex), List.set_getElem_self]

/-- Where names are distinct, a name has the id that stands next to it. -/
theorem IsNumbered.outgoingId?_eq_some_iff (h : registry.IsNumbered) {name : String} {id : UInt8} :
    registry.outgoingId? name = some id ↔ ∃ index sub, registry.subs[index]? = some sub ∧
      sub.name = name ∧ id = UInt8.ofNat (index + 1) := by
  have hnames : (registry.ids.map Prod.fst).Nodup := by
    rw [keys_ids]
    exact h.nodup
  rw [← mem_ids_iff]
  exact IdTable.id?_eq_some_iff hnames

/-- The id of a sub-protocol is a byte, and not the id of handshakes. -/
theorem IsNumbered.toNat_id (h : registry.IsNumbered) {index : Nat} {sub : Registered Y}
    (hsub : registry.subs[index]? = some sub) : (UInt8.ofNat (index + 1)).toNat = index + 1 := by
  obtain ⟨hindex, -⟩ := List.getElem?_eq_some_iff.mp hsub
  have := h.length_le
  rw [UInt8.toNat_ofNat']
  omega

theorem IsNumbered.outgoingId?_ne_zero (h : registry.IsNumbered) {name : String} {id : UInt8}
    (hid : registry.outgoingId? name = some id) : id ≠ 0 := by
  obtain ⟨index, sub, hsub, -, rfl⟩ := h.outgoingId?_eq_some_iff.mp hid
  intro hzero
  have hnat := h.toNat_id hsub
  rw [hzero] at hnat
  cases hnat

/-! ## Registering -/

variable [SubProtocol Y]

theorem register_eq_ok_iff {handler : AnySubProtocol Y} {id : UInt8} :
    registry.register handler = .ok (id, next) ↔
      SubProtocol.name handler ∉ registry.subs.map Registered.name ∧
        registry.subs.length < 255 ∧ id = UInt8.ofNat (registry.subs.length + 1) ∧
        next = { registry with
          subs := registry.subs ++ [⟨SubProtocol.name handler, handler⟩] } := by
  rw [← isSome_outgoingId?_iff, register]
  by_cases htaken : (registry.outgoingId? (SubProtocol.name handler)).isSome = true
  · rw [if_pos htaken]
    simp [htaken]
  · rw [if_neg htaken]
    by_cases hlength : 255 < registry.subs.length + 1
    · rw [if_pos hlength]
      have hfull : ¬ registry.subs.length < 255 := by omega
      simp [hfull]
    · rw [if_neg hlength]
      have hroom : registry.subs.length < 255 := by omega
      simp [htaken, hroom, eq_comm]

theorem IsNumbered.register (h : registry.IsNumbered) {handler : AnySubProtocol Y} {id : UInt8}
    (hregister : registry.register handler = .ok (id, next)) : next.IsNumbered := by
  obtain ⟨hname, hlength, -, rfl⟩ := register_eq_ok_iff.mp hregister
  constructor
  · rw [List.map_append]
    exact List.nodup_append'.mpr ⟨h.nodup, List.nodup_singleton _, by simpa using hname⟩
  · simpa using Nat.succ_le_of_lt hlength

theorem IsNumbered.registerAll (h : registry.IsNumbered) {handlers : List (AnySubProtocol Y)}
    (hregister : registry.registerAll handlers = .ok next) : next.IsNumbered := by
  induction handlers generalizing registry with
  | nil =>
    obtain rfl := Except.ok.inj hregister
    exact h
  | cons handler rest ih =>
    rw [Registry.registerAll] at hregister
    split at hregister
    · cases hregister
    · next step hstep => exact ih (h.register hstep) hregister

theorem subs_of_registerAll {handlers : List (AnySubProtocol Y)}
    (hregister : registry.registerAll handlers = .ok next) :
    next.subs = registry.subs ++
      handlers.map fun handler => ⟨SubProtocol.name handler, handler⟩ := by
  induction handlers generalizing registry with
  | nil =>
    obtain rfl := Except.ok.inj hregister
    exact (List.append_nil _).symm
  | cons handler rest ih =>
    rw [Registry.registerAll] at hregister
    split at hregister
    · cases hregister
    · next step hstep =>
      obtain ⟨-, -, -, hnext⟩ := register_eq_ok_iff.mp hstep
      rw [ih hregister, hnext, List.map_cons, List.append_assoc]
      rfl

theorem isNumbered_of_registerAll {handlers : List (AnySubProtocol Y)}
    (hempty : registry.subs = []) (hregister : registry.registerAll handlers = .ok next) :
    next.IsNumbered :=
  (isNumbered_of_empty hempty).registerAll hregister

/-! ## Messages by id -/

/-- How a message is taken for the sub-protocol at a position: it alone is called, with
what it queues and the state that it goes on to, and nothing else of the registry
changes. -/
structure Delivers (registry : Registry Y) (index : Nat) (sub : Registered Y)
    (call : Reply (AnySubProtocol Y) Unit) (reply : Reply (Registry Y) Bool) : Prop where
  result_eq : reply.result = (forgiveUnroutable call).result
  output_eq : reply.output = call.output
  next_eq : reply.next =
    { registry with subs := registry.subs.set index ⟨sub.name, call.next⟩ }
  ids_eq : reply.next.ids = registry.ids

theorem result_forgiveUnroutable_mapNext {σ τ : Type} (reply : Reply σ Unit) (f : σ → τ) :
    (forgiveUnroutable (reply.mapNext f)).result = (forgiveUnroutable reply).result := by
  rw [forgiveUnroutable, forgiveUnroutable, Reply.mapNext]
  dsimp only
  split
  · rfl
  · rfl

theorem next_forgiveUnroutable {σ : Type} (reply : Reply σ Unit) :
    (forgiveUnroutable reply).next = reply.next := by
  rw [forgiveUnroutable]
  split
  · rfl
  · rfl

/-- A message that bears the id of a sub-protocol is delivered to it. -/
theorem IsNumbered.onCommand_delivers (h : registry.IsNumbered) {index : Nat}
    {sub : Registered Y} (hsub : registry.subs[index]? = some sub) (state : ConnectionState)
    (payload : Bytes) :
    registry.Delivers index sub
      (SubProtocol.onMessage sub.handler (registry.context state sub.name) payload)
      (registry.onCommand state (UInt8.ofNat (index + 1) :: payload)) := by
  let call := SubProtocol.onMessage sub.handler (registry.context state sub.name) payload
  have hid := h.toNat_id hsub
  have hzero : UInt8.ofNat (index + 1) ≠ 0 := by
    intro hzero
    rw [hzero] at hid
    cases hid
  have hroute : registry.route state (UInt8.ofNat (index + 1)) payload =
      call.mapNext fun handler =>
        { registry with subs := registry.subs.set index { sub with handler } } := by
    rw [route, hid]
    simp only [Nat.add_sub_cancel, hsub]
    rfl
  rw [onCommand, if_neg hzero, hroute]
  refine ⟨result_forgiveUnroutable_mapNext _ _, output_forgiveUnroutable _,
    next_forgiveUnroutable _, ?_⟩
  rw [next_forgiveUnroutable]
  apply ids_eq_of_names
  exact names_set hsub call.next

end Registry
end PeerLink
