import PeerLink.Proofs.Module.Attendance

/-!
# What modules are offered

Of several registries only the first takes extended messages, so what metadata is fetched
and reported on a connection is up to the exchange in that one.  Nothing else that the
modules do touches the exchange, except the teardown.
-/

namespace PeerLink

/-! ## What reports nothing -/

theorem Event.reported_singleton {event : Event} (h : event.metadata? = none) :
    reported [event] = [] :=
  List.filterMap_cons_none h

theorem Inbound.metadata?_of_flag? {command : Command} {event : Event}
    (h : Inbound.flag? command = some event) : event.metadata? = none := by
  cases command with
  | choke | unchoke | interested | notInterested =>
    obtain rfl := Option.some.inj h
    rfl
  | _ => cases h

theorem Inbound.metadata?_of_read? {id : UInt8} {length : UInt32} {payload : Bytes}
    {event : Event} (h : Inbound.read? id length payload = some (.ok event)) :
    event.metadata? = none := by
  cases says_of_read? h with
  | _ => rfl

namespace FastExtension

theorem metadata?_of_read? {command : Command} {payload : Bytes} {event : Event}
    (h : read? command payload = some (.ok event)) : event.metadata? = none := by
  cases command with
  | suggest | reject | allowedFast =>
    obtain ⟨a, -, rfl⟩ := map_eq_ok_iff.mp (Option.some.inj h)
    rfl
  | haveAll | haveNone =>
    obtain rfl := Except.ok.inj (Option.some.inj h)
    rfl
  | _ => cases h

theorem onCommand_reportsNothing (fast : FastExtension) (command : UInt8) (payload : Bytes) :
    (fast.onCommand command payload).output.ReportsNothing := by
  rw [onCommand]
  split
  · rfl
  · rfl
  · next event hread =>
    obtain ⟨known, -, hread⟩ := Option.bind_eq_some_iff.mp hread
    exact Event.reported_singleton (metadata?_of_read? hread)

end FastExtension

/-- Offering a frame to modules is offering it to the first, if that claims it, and then to
the rest unless the first took it or failed. -/
theorem Capability.offer_cons_cases {σ : Type} [Capability σ] (state : ConnectionState)
    (command : UInt8) (payload : Bytes) (m : σ) (rest : List σ) :
    let offered := offer state command payload (m :: rest)
    let later := offer state command payload rest
    let reply := onCommand m state command payload
    claims m command = false ∧ offered.next = m :: later.next ∧
        offered.output.events = later.output.events ∨
      claims m command = true ∧ reply.result ≠ .ok false ∧ offered.next = reply.next :: rest ∧
        offered.output.events = reply.output.events ∨
      claims m command = true ∧ reply.result = .ok false ∧
        offered.next = reply.next :: later.next ∧
        offered.output.events = reply.output.events ++ later.output.events := by
  intro offered later reply
  by_cases hclaims : claims m command = true
  · right
    cases hresult : (onCommand m state command payload).result with
    | error failure =>
      left
      simp only [offered, reply, offer, if_pos hclaims, hresult]
      exact ⟨hclaims, by simp, rfl, rfl⟩
    | ok taken =>
      simp only [offered, reply, offer, if_pos hclaims, hresult]
      cases taken with
      | true => exact .inl ⟨hclaims, by decide, rfl, rfl⟩
      | false => exact .inr ⟨hclaims, rfl, rfl, rfl⟩
  · left
    simp only [offered, offer, if_neg hclaims]
    exact ⟨by simpa using hclaims, rfl, rfl⟩

namespace Reply

variable {σ τ α : Type} {f : σ → τ}

theorem map_next_each {act : σ → Reply σ Unit} (hact : ∀ m, f (act m).next = f m)
    (modules : List σ) : (each act modules).next.map f = modules.map f := by
  induction modules with
  | nil => rfl
  | cons m rest ih =>
    obtain ⟨later, news, hnext, -, hcase⟩ := each_cons_cases act m rest
    rw [hnext, List.map_cons, List.map_cons, hact]
    rcases hcase with ⟨rfl, -⟩ | ⟨rfl, -⟩
    · rfl
    · rw [ih]

theorem map_next_first? {act : σ → Option (Reply σ α)}
    (hact : ∀ m reply, act m = some reply → f reply.next = f m) {modules : List σ}
    {reply : Reply (List σ) α} (h : first? act modules = some reply) :
    reply.next.map f = modules.map f := by
  induction modules generalizing reply with
  | nil => cases h
  | cons m rest ih =>
    rw [first?] at h
    split at h
    · next used hused =>
      obtain rfl := Option.some.inj h
      exact congrArg (· :: rest.map f) (hact m used hused)
    · obtain ⟨later, hlater, rfl⟩ := Option.map_eq_some_iff.mp h
      exact congrArg (f m :: ·) (ih hlater)

end Reply

namespace AnyModule

variable {X Y : Type}

/-- The seats of a module, if it is a registry. -/
def seats? (m : AnyModule X Y) : Option (List Seat) := m.asRegistry?.map Registry.seats

/-- The seats of the first registry. -/
def seats (modules : List (AnyModule X Y)) : List Seat := (modules.findSome? seats?).getD []

theorem seats_cons_of_none {m : AnyModule X Y} (h : m.seats? = none)
    (rest : List (AnyModule X Y)) : seats (m :: rest) = seats rest := by
  rw [seats, List.findSome?_cons, h]
  rfl

theorem seats_congr {modules next : List (AnyModule X Y)}
    (h : next.map seats? = modules.map seats?) : seats next = seats modules := by
  have hfind : ∀ ms : List (AnyModule X Y), ms.findSome? seats? = (ms.map seats?).findSome? id := by
    intro ms
    rw [List.findSome?_map]
    rfl
  rw [seats, seats, hfind, hfind, h]

variable [Capability X] [SubProtocol Y]

theorem claims_registry_iff {registry : Registry Y} {command : UInt8} :
    Capability.claims (AnyModule.registry (X := X) registry) command = true ↔
      command = Command.extended.toByte := by
  change [Command.extended.toByte].contains command = true ↔ _
  rw [List.contains_iff_mem, List.mem_singleton]

section Quiet

variable (hX : Capability.Queues Output.ReportsNothing X)
  (hY : SubProtocol.Queues Output.ReportsNothing Y)

include hX in
theorem onCommand_quiet {m : AnyModule X Y} (hm : m.seats? = none) (state : ConnectionState)
    (command : UInt8) (payload : Bytes) :
    (Capability.onCommand m state command payload).next.seats? = none ∧
      (Capability.onCommand m state command payload).output.ReportsNothing := by
  cases m with
  | fast fast => exact ⟨rfl, fast.onCommand_reportsNothing command payload⟩
  | registry registry => cases hm
  | custom m => exact ⟨rfl, hX.onCommand m state command payload⟩

include hX in
/-- Frames that are not extended messages reach no exchange. -/
theorem offer_quiet {command : UInt8} (hcommand : command ≠ Command.extended.toByte)
    (state : ConnectionState) (payload : Bytes) (modules : List (AnyModule X Y)) :
    (Capability.offer state command payload modules).next.map seats? = modules.map seats? ∧
      (Capability.offer state command payload modules).output.ReportsNothing := by
  induction modules with
  | nil => exact ⟨rfl, rfl⟩
  | cons m rest ih =>
    obtain ⟨hrest, hlater⟩ := ih
    have hm : Capability.claims m command = true → m.seats? = none := by
      intro hclaims
      cases m with
      | fast fast => rfl
      | registry registry => exact absurd (claims_registry_iff.mp hclaims) hcommand
      | custom m => rfl
    rw [Output.ReportsNothing]
    rcases Capability.offer_cons_cases state command payload m rest with
      ⟨-, hnext, hevents⟩ | ⟨hclaims, -, hnext, hevents⟩ | ⟨hclaims, -, hnext, hevents⟩
    · rw [hnext, hevents, List.map_cons, List.map_cons, hrest]
      exact ⟨rfl, hlater⟩
    · obtain ⟨hstill, hquiet⟩ := onCommand_quiet hX (hm hclaims) state command payload
      rw [hnext, hevents, List.map_cons, List.map_cons, hstill, hm hclaims]
      exact ⟨rfl, hquiet⟩
    · obtain ⟨hstill, hquiet⟩ := onCommand_quiet hX (hm hclaims) state command payload
      rw [hnext, hevents, List.map_cons, List.map_cons, hstill, hm hclaims, hrest,
        Event.reported_append, hquiet]
      exact ⟨rfl, hlater⟩

include hX hY in
/-- Of the extended messages that are offered to modules, none reaches an exchange but that
of the first registry. -/
theorem offer_extended {modules : List (AnyModule X Y)} (hsingle : IsSingle (seats modules))
    (state : ConnectionState) (length : UInt32) (payload : Bytes) :
    Attends (seats modules) state.infoHash [.message Command.extended.toByte length payload]
      (seats (Capability.offer state Command.extended.toByte payload modules).next)
      (Capability.offer state Command.extended.toByte payload modules).output.events := by
  induction modules with
  | nil => exact .idle rfl
  | cons m rest ih =>
    have hcases := Capability.offer_cons_cases state Command.extended.toByte payload m rest
    cases hm : m.seats? with
    | none =>
      obtain ⟨hstill, hquiet⟩ := onCommand_quiet hX hm state Command.extended.toByte payload
      rw [seats_cons_of_none hm] at hsingle ⊢
      rcases hcases with ⟨-, hnext, hevents⟩ | ⟨-, -, hnext, hevents⟩ | ⟨-, -, hnext, hevents⟩
      · rw [hnext, hevents, seats_cons_of_none hm]
        exact ih hsingle
      · rw [hnext, hevents, seats_cons_of_none hstill]
        exact .idle hquiet
      · obtain ⟨calls, hprompted, hundergoes⟩ := ih hsingle
        rw [hnext, hevents, seats_cons_of_none hstill]
        refine ⟨calls, hprompted, hundergoes.after_eq, ?_⟩
        rw [Event.reported_append, hquiet]
        exact hundergoes.reported_eq
    | some found =>
      cases m with
      | fast fast => cases hm
      | custom m => cases hm
      | registry registry =>
        -- The registry claims the message, and takes it or fails.
        rcases hcases with ⟨hclaims, -⟩ | ⟨-, -, hnext, hevents⟩ | ⟨-, hpassed, -⟩
        · rw [claims_registry_iff.mpr rfl] at hclaims
          cases hclaims
        · rw [hnext, hevents]
          exact registry.onCommand_attends hY hsingle state length payload
        · exact absurd hpassed (registry.onCommand_result_ne state payload)

end Quiet

/-! ## Other things that modules do -/

theorem seats?_onHandshake (m : AnyModule X Y) (state : ConnectionState) (handshake : Handshake) :
    (Capability.onHandshake m state handshake).next.seats? = m.seats? := by
  cases m with
  | fast fast => rfl
  | registry registry => rfl
  | custom m => rfl

theorem onHandshake_reportsNothing (hX : Capability.Queues Output.ReportsNothing X)
    (m : AnyModule X Y) (state : ConnectionState) (handshake : Handshake) :
    (Capability.onHandshake m state handshake).output.ReportsNothing := by
  cases m with
  | fast fast => rfl
  | registry registry => rfl
  | custom m => exact hX.onHandshake m state handshake

theorem seats_teardownAll (modules : List (AnyModule X Y)) :
    seats (Capability.teardownAll modules).1 = (seats modules).map (Seat.after [.teardown]) := by
  induction modules with
  | nil => rfl
  | cons m rest ih =>
    change seats ((Capability.onTeardown m).1 :: (Capability.teardownAll rest).1) = _
    cases m with
    | fast fast => exact ih
    | registry registry => exact registry.seats_teardown
    | custom m => exact ih

end AnyModule

theorem Registry.seats_exchange {Y : Type} {registry : Registry Y} {state : ConnectionState}
    {message : PeerExchange} {reply : Reply (Registry Y) Unit}
    (h : registry.use? state (AnySubProtocol.exchange? message) = some reply) :
    reply.next.seats = registry.seats := by
  obtain ⟨subs, hsubs, rfl⟩ := Option.map_eq_some_iff.mp h
  refine Reply.map_next_first? ?_ hsubs
  intro sub renewed hrenewed
  obtain ⟨used, hused, rfl⟩ := Option.map_eq_some_iff.mp hrenewed
  obtain ⟨name, handler⟩ := sub
  cases handler with
  | peerExchange channel =>
    obtain rfl := Option.some.inj hused
    rfl
  | metadata exchange => cases hused
  | custom sub => cases hused

end PeerLink
