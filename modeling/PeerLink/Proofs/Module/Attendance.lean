import Mathlib.Data.List.Forall2
import PeerLink.Proofs.Module.MetadataFetch
import PeerLink.Proofs.Module.Registration

/-!
# What reaches a metadata exchange

Of all that happens to the modules of a connection, only extended messages reach the
exchange that is registered there, and all metadata that is reported is reported by it.
`Attends` says this of some frames and of what sits in a registry before and after them.
-/

namespace PeerLink

/-! ## Seats -/

/-- A place in a registry, as far as metadata goes: the exchange, if one sits there. -/
abbrev Seat := Option MetadataExchange

namespace Seat

def after (calls : List MetadataExchange.Call) (seat : Seat) : Seat :=
  Option.map (·.after calls) seat

def reported (calls : List MetadataExchange.Call) (seat : Seat) : List Bytes :=
  Option.elim seat [] fun exchange => Event.reported (exchange.raised calls)

theorem after_append (first second : List MetadataExchange.Call) (seat : Seat) :
    after (first ++ second) seat = after second (after first seat) := by
  cases seat with
  | none => rfl
  | some exchange => exact congrArg some (exchange.after_append first second)

theorem reported_append (first second : List MetadataExchange.Call) (seat : Seat) :
    reported (first ++ second) seat =
      reported first seat ++ reported second (after first seat) := by
  cases seat with
  | none => rfl
  | some exchange =>
    change Event.reported (exchange.raised (first ++ second)) = _
    rw [MetadataExchange.raised_append, Event.reported_append]
    rfl

end Seat

/-- There is at most one exchange. -/
def IsSingle (seats : List Seat) : Prop :=
  seats.Pairwise fun first second => first = none ∨ second = none

/-- No exchange is there. -/
def IsVacant (seats : List Seat) : Prop := ∀ seat ∈ seats, seat = none

/-- The exchange gets these calls, and what the events report is what it reports. -/
structure Undergoes (before : List Seat) (calls : List MetadataExchange.Call) (after : List Seat)
    (events : List Event) : Prop where
  after_eq : after = before.map (Seat.after calls)
  reported_eq : Event.reported events = before.flatMap (Seat.reported calls)

section Undergoing

variable {first second third next : List Seat} {calls later : List MetadataExchange.Call}
  {events news : List Event} {exchange : MetadataExchange}

theorem IsSingle.split (h : IsSingle (first ++ some exchange :: second)) :
    IsVacant first ∧ IsVacant second := by
  obtain ⟨-, htail, hcross⟩ := List.pairwise_append.mp h
  constructor
  · intro seat hseat
    exact (hcross seat hseat _ List.mem_cons_self).resolve_right (Option.some_ne_none exchange)
  · intro seat hseat
    exact ((List.pairwise_cons.mp htail).1 seat hseat).resolve_left (Option.some_ne_none exchange)

theorem IsVacant.findSome?_eq_none (h : IsVacant first) : first.findSome? id = none :=
  List.findSome?_eq_none_iff.mpr h

theorem Undergoes.idle (hquiet : Event.reported events = []) : Undergoes first [] first events := by
  constructor
  · have hsame : Seat.after [] = id := by
      funext seat
      exact Option.map_id'
    rw [hsame, List.map_id]
  · rw [hquiet]
    symm
    rw [List.flatMap_eq_nil_iff]
    intro seat _
    cases seat with
    | none => rfl
    | some exchange => rfl

theorem Undergoes.vacant (h : IsVacant first) (hquiet : Event.reported events = []) :
    Undergoes first calls first events := by
  constructor
  · have hsame : first.map (Seat.after calls) = first.map id := by
      apply List.map_congr_left
      intro seat hseat
      rw [h seat hseat]
      rfl
    rw [hsame, List.map_id]
  · rw [hquiet]
    symm
    rw [List.flatMap_eq_nil_iff]
    intro seat hseat
    rw [h seat hseat]
    rfl

/-- What happens to different places at a time. -/
theorem Undergoes.append (h : Undergoes first calls second events)
    (h' : Undergoes third calls next news) :
    Undergoes (first ++ third) calls (second ++ next) (events ++ news) := by
  constructor
  · rw [h.after_eq, h'.after_eq, List.map_append]
  · rw [Event.reported_append, h.reported_eq, h'.reported_eq, List.flatMap_append]

/-- What happens to the same places one after the other. -/
theorem Undergoes.trans (hsingle : IsSingle first) (h : Undergoes first calls second events)
    (h' : Undergoes second later third news) :
    Undergoes first (calls ++ later) third (events ++ news) := by
  constructor
  · rw [h'.after_eq, h.after_eq, List.map_map]
    apply List.map_congr_left
    intro seat _
    exact (Seat.after_append calls later seat).symm
  · rw [Event.reported_append, h.reported_eq, h'.reported_eq, h.after_eq, List.flatMap_map]
    clear h h'
    induction first with
    | nil => rfl
    | cons seat rest ih =>
      cases seat with
      | none => exact ih (List.pairwise_cons.mp hsingle).2
      | some exchange =>
        have hsplit : IsSingle ([] ++ some exchange :: rest) := hsingle
        obtain ⟨-, hrest⟩ := hsplit.split
        have hnothing : ∀ f : Seat → List Bytes, f none = [] → rest.flatMap f = [] := by
          intro f hf
          rw [List.flatMap_eq_nil_iff]
          intro seat hseat
          rw [hrest seat hseat, hf]
        rw [List.flatMap_cons, List.flatMap_cons, List.flatMap_cons, hnothing _ rfl, hnothing _ rfl,
          hnothing _ rfl, Seat.reported_append]
        simp

theorem Undergoes.isSingle (h : Undergoes first calls second events) (hsingle : IsSingle first) :
    IsSingle second := by
  rw [h.after_eq, IsSingle, List.pairwise_map]
  refine hsingle.imp ?_
  rintro one other (rfl | rfl)
  · exact .inl rfl
  · exact .inr rfl

/-- Either nobody sits there, or the one exchange got all calls. -/
theorem Undergoes.outcome (hsingle : IsSingle first) (h : Undergoes first calls second events) :
    IsVacant first ∧ second.findSome? id = none ∧ Event.reported events = [] ∨
      ∃ exchange, some exchange ∈ first ∧ second.findSome? id = some (exchange.after calls) ∧
        Event.reported events = Event.reported (exchange.raised calls) := by
  by_cases hvacant : IsVacant first
  · left
    have hidle : Undergoes first calls first [] := .vacant hvacant rfl
    refine ⟨hvacant, ?_, h.reported_eq.trans hidle.reported_eq.symm⟩
    rw [h.after_eq, ← hidle.after_eq]
    exact hvacant.findSome?_eq_none
  · right
    obtain ⟨seat, hseat, hsome⟩ : ∃ seat ∈ first, seat ≠ none := by
      simpa [IsVacant] using hvacant
    obtain ⟨exchange, rfl⟩ := Option.ne_none_iff_exists'.mp hsome
    obtain ⟨front, back, rfl⟩ := List.append_of_mem hseat
    obtain ⟨hfront, hback⟩ := hsingle.split
    have hbefore : Undergoes front calls front [] := .vacant hfront rfl
    have hbehind : Undergoes back calls back [] := .vacant hback rfl
    refine ⟨exchange, hseat, ?_, ?_⟩
    · rw [h.after_eq, List.map_append, ← hbefore.after_eq, List.findSome?_append,
        hfront.findSome?_eq_none]
      rfl
    · rw [h.reported_eq, List.flatMap_append, List.flatMap_cons, ← hbefore.reported_eq,
        ← hbehind.reported_eq]
      exact List.append_nil _

end Undergoing

/-! ## Frames that reach an exchange -/

/-- An exchange has this id of ours. -/
def Addresses (seats : List Seat) (id : UInt8) : Prop :=
  id ≠ 0 ∧ ∃ exchange, seats[id.toNat - 1]? = some (some exchange)

namespace MetadataExchange

/-- The peer causes the call. -/
def Call.isInbound : Call → Bool
  | .teardown => false
  | _ => true

/-- An extended message causes a call: a handshake, or a message for the exchange.  If an
info hash was known then, it is this one. -/
inductive PromptedBy (seats : List Seat) (infoHash : Option Digest) : Call → Frame → Prop where
  | handshake {context : SubContext} {handshake : ExtensionHandshake} {length : UInt32}
      {payload : Bytes} (hdecode : ExtensionHandshake.decode payload = .ok handshake)
      (hinfoHash : ∀ digest, context.state.infoHash = some digest → infoHash = some digest) :
    PromptedBy seats infoHash (.handshake context handshake)
      (.message Command.extended.toByte length (0 :: payload))
  | message {context : SubContext} {id : UInt8} {length : UInt32} {payload : Bytes}
      (hid : Addresses seats id)
      (hinfoHash : ∀ digest, context.state.infoHash = some digest → infoHash = some digest) :
    PromptedBy seats infoHash (.message context payload)
      (.message Command.extended.toByte length (id :: payload))

/-- All calls that the peer causes are caused by some of the frames, in order. -/
abbrev Prompted (seats : List Seat) (infoHash : Option Digest) (calls : List Call)
    (frames : List Frame) : Prop :=
  List.SublistForall₂ (PromptedBy seats infoHash) (calls.filter Call.isInbound) frames

variable {seats next : List Seat} {infoHash other : Option Digest} {calls later : List Call}
  {frames more : List Frame}

theorem Prompted.append (h : Prompted seats infoHash calls frames)
    (h' : Prompted seats infoHash later more) :
    Prompted seats infoHash (calls ++ later) (frames ++ more) := by
  obtain ⟨heard, hcalls, hframes⟩ := List.sublistForall₂_iff.mp h
  obtain ⟨heard', hlater, hmore⟩ := List.sublistForall₂_iff.mp h'
  apply List.sublistForall₂_iff.mpr
  refine ⟨heard ++ heard', ?_, hframes.append hmore⟩
  rw [List.filter_append]
  exact List.rel_append hcalls hlater

theorem PromptedBy.mono (hids : ∀ id, Addresses seats id → Addresses next id)
    (hsame : ∀ digest, infoHash = some digest → other = some digest) {c : Call} {frame : Frame}
    (h : PromptedBy seats infoHash c frame) : PromptedBy next other c frame := by
  cases h with
  | handshake hdecode hinfoHash =>
    exact .handshake hdecode fun digest hdigest => hsame digest (hinfoHash digest hdigest)
  | message hid hinfoHash =>
    exact .message (hids _ hid) fun digest hdigest => hsame digest (hinfoHash digest hdigest)

theorem Prompted.mono (hids : ∀ id, Addresses seats id → Addresses next id)
    (hsame : ∀ digest, infoHash = some digest → other = some digest)
    (h : Prompted seats infoHash calls frames) : Prompted next other calls frames := by
  obtain ⟨heard, hcalls, hframes⟩ := List.sublistForall₂_iff.mp h
  have hheard := hcalls.imp fun _ _ hprompted => PromptedBy.mono hids hsame hprompted
  exact List.sublistForall₂_iff.mpr ⟨heard, hheard, hframes⟩

/-- If an info hash was known when a message reached the exchange, it is this one. -/
theorem Prompted.infoHash_eq (h : Prompted seats infoHash calls frames) {context : SubContext}
    {payload : Bytes} (hmem : .message context payload ∈ calls) {digest : Digest}
    (hdigest : context.state.infoHash = some digest) : infoHash = some digest := by
  have hinbound : .message context payload ∈ calls.filter Call.isInbound :=
    List.mem_filter.mpr ⟨hmem, rfl⟩
  rw [Prompted] at h
  generalize calls.filter Call.isInbound = inbound at h hinbound
  induction h with
  | nil => cases hinbound
  | cons hfirst _ ih =>
    rcases List.mem_cons.mp hinbound with rfl | hrest
    · cases hfirst with
      | message hid hinfoHash => exact hinfoHash digest hdigest
    · exact ih hrest
  | cons_right _ ih => exact ih hinbound

end MetadataExchange

theorem Undergoes.addresses_iff {before next : List Seat} {calls : List MetadataExchange.Call}
    {events : List Event} (h : Undergoes before calls next events) (id : UInt8) :
    Addresses next id ↔ Addresses before id := by
  rw [Addresses, Addresses, h.after_eq]
  refine and_congr_right fun _ => ?_
  rw [List.getElem?_map]
  cases before[id.toNat - 1]? with
  | none => simp
  | some seat =>
    cases seat with
    | none => simp [Seat.after]
    | some exchange => simp [Seat.after]

/-- Of these frames, extended messages reach the exchange or none do; what the events
report is what it reports. -/
def Attends (before : List Seat) (infoHash : Option Digest) (frames : List Frame)
    (after : List Seat) (events : List Event) : Prop :=
  ∃ calls, MetadataExchange.Prompted before infoHash calls frames ∧
    Undergoes before calls after events

namespace Attends

variable {first second third : List Seat} {infoHash other : Option Digest}
  {frames more : List Frame} {events news : List Event}

theorem idle (hquiet : Event.reported events = []) : Attends first infoHash frames first events :=
  ⟨[], .nil, .idle hquiet⟩

theorem trans (hsingle : IsSingle first) (h : Attends first infoHash frames second events)
    (h' : Attends second infoHash more third news) :
    Attends first infoHash (frames ++ more) third (events ++ news) := by
  obtain ⟨calls, hprompted, hundergoes⟩ := h
  obtain ⟨later, hlater, hnext⟩ := h'
  have hsame := hlater.mono (fun id => (hundergoes.addresses_iff id).mp) fun _ hdigest => hdigest
  exact ⟨calls ++ later, hprompted.append hsame, hundergoes.trans hsingle hnext⟩

theorem isSingle (h : Attends first infoHash frames second events) (hsingle : IsSingle first) :
    IsSingle second := by
  obtain ⟨calls, -, hundergoes⟩ := h
  exact hundergoes.isSingle hsingle

theorem of_infoHash (hsame : ∀ digest, infoHash = some digest → other = some digest)
    (h : Attends first infoHash frames second events) :
    Attends first other frames second events := by
  obtain ⟨calls, hprompted, hundergoes⟩ := h
  exact ⟨calls, hprompted.mono (fun _ hid => hid) hsame, hundergoes⟩

end Attends

/-! ## Sub-protocols -/

namespace AnySubProtocol

variable {Y : Type}

/-- The sub-protocol as a metadata exchange. -/
def asExchange? : AnySubProtocol Y → Option MetadataExchange
  | .metadata exchange => some exchange
  | _ => none

theorem eq_metadata_of_asExchange? {sub : AnySubProtocol Y} {exchange : MetadataExchange}
    (h : sub.asExchange? = some exchange) : sub = .metadata exchange := by
  cases sub with
  | metadata found => exact congrArg metadata (Option.some.inj h)
  | peerExchange channel => cases h
  | custom sub => cases h

end AnySubProtocol

namespace Reply

variable {σ : Type}

/-- Running several callbacks is running the first, and then the rest unless it fails. -/
theorem each_cons_cases (act : σ → Reply σ Unit) (m : σ) (rest : List σ) :
    ∃ later news, (each act (m :: rest)).next = (act m).next :: later ∧
      (each act (m :: rest)).output.events = (act m).output.events ++ news ∧
      (later = rest ∧ news = [] ∨
        later = (each act rest).next ∧ news = (each act rest).output.events) := by
  rw [each]
  split
  · exact ⟨rest, [], rfl, (List.append_nil _).symm, .inl ⟨rfl, rfl⟩⟩
  · exact ⟨_, _, rfl, rfl, .inr ⟨rfl, rfl⟩⟩

end Reply

/-- No metadata is reported. -/
def Output.ReportsNothing (output : Output) : Prop := Event.reported output.events = []

theorem Output.admitsMessages_reportsNothing : AdmitsMessages ReportsNothing where
  none := rfl
  append {first second} hfirst hsecond := by
    change Event.reported (first.events ++ second.events) = []
    rw [Event.reported_append, hfirst, hsecond]
    rfl
  message _ _ := rfl

namespace AnySubProtocol

variable {Y : Type} [SubProtocol Y] (hY : SubProtocol.Queues Output.ReportsNothing Y)
  {sub : AnySubProtocol Y}
include hY

theorem onHandshake_vacant (hvacant : sub.asExchange? = none) (context : SubContext)
    (handshake : ExtensionHandshake) :
    (SubProtocol.onHandshake sub context handshake).next.asExchange? = none ∧
      (SubProtocol.onHandshake sub context handshake).output.ReportsNothing := by
  cases sub with
  | metadata exchange => cases hvacant
  | peerExchange channel => exact ⟨rfl, rfl⟩
  | custom sub => exact ⟨rfl, hY.onHandshake sub context handshake⟩

theorem onMessage_vacant (hvacant : sub.asExchange? = none) (context : SubContext)
    (payload : Bytes) :
    (SubProtocol.onMessage sub context payload).next.asExchange? = none ∧
      (SubProtocol.onMessage sub context payload).output.ReportsNothing := by
  cases sub with
  | metadata exchange => cases hvacant
  | peerExchange channel =>
    refine ⟨rfl, ?_⟩
    change (channel.onMessage payload).output.ReportsNothing
    rw [PeerExchangeChannel.onMessage]
    split
    · rfl
    · rfl
  | custom sub => exact ⟨rfl, hY.onMessage sub context payload⟩

end AnySubProtocol

/-! ## Registries -/

namespace Registry

variable {Y : Type}

/-- What sits where a sub-protocol is registered. -/
def seat (sub : Registered Y) : Seat := sub.handler.asExchange?

/-- The seats in order of registration. -/
def seats (registry : Registry Y) : List Seat := registry.subs.map seat

variable [SubProtocol Y] (hY : SubProtocol.Queues Output.ReportsNothing Y)

include hY in
theorem greet_vacant {sub : Registered Y} (hvacant : seat sub = none) (state : ConnectionState)
    (handshake : ExtensionHandshake) :
    seat (greet state handshake sub).next = none ∧
      (greet state handshake sub).output.ReportsNothing := by
  rw [greet]
  split
  · exact ⟨hvacant, rfl⟩
  · exact AnySubProtocol.onHandshake_vacant hY hvacant _ handshake

/-- An exchange may be called for a handshake of the peer. -/
def IsGreeting (state : ConnectionState) (handshake : ExtensionHandshake)
    (calls : List MetadataExchange.Call) : Prop :=
  calls = [] ∨ ∃ context, context.state = state ∧ calls = [.handshake context handshake]

theorem greet_undergoes {sub : Registered Y} {exchange : MetadataExchange}
    (hseat : seat sub = some exchange) (state : ConnectionState)
    (handshake : ExtensionHandshake) :
    ∃ calls, IsGreeting state handshake calls ∧
      Undergoes [seat sub] calls [seat (greet state handshake sub).next]
        (greet state handshake sub).output.events := by
  obtain ⟨name, handler⟩ := sub
  obtain rfl := AnySubProtocol.eq_metadata_of_asExchange? hseat
  rw [greet]
  split
  · exact ⟨[], .inl rfl, .idle rfl⟩
  · next id _ =>
    refine ⟨[.handshake ⟨state, name, some id⟩ handshake], .inr ⟨_, rfl, rfl⟩, rfl, ?_⟩
    change Event.reported (exchange.onHandshake _ handshake).output.events = _
    simp [Seat.reported, seat, AnySubProtocol.asExchange?, MetadataExchange.raised,
      MetadataExchange.call]

include hY in
theorem greetAll_vacant {subs : List (Registered Y)} (hvacant : IsVacant (subs.map seat))
    (state : ConnectionState) (handshake : ExtensionHandshake) :
    (Reply.each (greet state handshake) subs).next.map seat = subs.map seat ∧
      (Reply.each (greet state handshake) subs).output.ReportsNothing := by
  induction subs with
  | nil => exact ⟨rfl, rfl⟩
  | cons sub rest ih =>
    rw [List.map_cons, IsVacant, List.forall_mem_cons] at hvacant
    obtain ⟨hseat, hquiet⟩ := greet_vacant hY hvacant.1 state handshake
    obtain ⟨hrest, hlater⟩ := ih hvacant.2
    obtain ⟨later, news, hnext, hevents, hcase⟩ :=
      Reply.each_cons_cases (greet state handshake) sub rest
    rw [Output.ReportsNothing, hnext, hevents, List.map_cons, List.map_cons, hseat, hvacant.1,
      Event.reported_append, hquiet]
    rcases hcase with ⟨rfl, rfl⟩ | ⟨rfl, rfl⟩
    · exact ⟨rfl, rfl⟩
    · exact ⟨congrArg _ hrest, hlater⟩

include hY in
theorem greetAll_undergoes {subs : List (Registered Y)} (hsingle : IsSingle (subs.map seat))
    (state : ConnectionState) (handshake : ExtensionHandshake) :
    ∃ calls, IsGreeting state handshake calls ∧
      Undergoes (subs.map seat) calls ((Reply.each (greet state handshake) subs).next.map seat)
        (Reply.each (greet state handshake) subs).output.events := by
  induction subs with
  | nil => exact ⟨[], .inl rfl, .idle rfl⟩
  | cons sub rest ih =>
    obtain ⟨later, news, hnext, hevents, hcase⟩ :=
      Reply.each_cons_cases (greet state handshake) sub rest
    rw [List.map_cons] at hsingle
    rw [hnext, hevents, List.map_cons, List.map_cons]
    cases hseat : seat sub with
    | some exchange =>
      -- The exchange is the only one, so nothing happens to the rest.
      rw [hseat] at hsingle
      have hsplit : IsSingle ([] ++ some exchange :: rest.map seat) := hsingle
      obtain ⟨calls, hcalls, hundergoes⟩ := greet_undergoes hseat state handshake
      obtain ⟨hrest, hlater⟩ := greetAll_vacant hY hsplit.split.2 state handshake
      refine ⟨calls, hcalls, ?_⟩
      rw [hseat] at hundergoes
      apply hundergoes.append
      rcases hcase with ⟨rfl, rfl⟩ | ⟨rfl, rfl⟩
      · exact .vacant hsplit.split.2 rfl
      · rw [hrest]
        exact .vacant hsplit.split.2 hlater
    | none =>
      obtain ⟨hstill, hquiet⟩ := greet_vacant hY hseat state handshake
      have hfirst : ∀ calls,
          Undergoes [none] calls [none] (greet state handshake sub).output.events :=
        fun calls => .vacant (List.forall_mem_singleton.mpr rfl) hquiet
      rw [hstill]
      rcases hcase with ⟨rfl, rfl⟩ | ⟨rfl, rfl⟩
      · exact ⟨[], .inl rfl, (hfirst []).append (.idle rfl)⟩
      · obtain ⟨calls, hcalls, hundergoes⟩ := ih (List.pairwise_cons.mp hsingle).2
        exact ⟨calls, hcalls, (hfirst calls).append hundergoes⟩

include hY in
theorem receiveHandshake_attends {registry : Registry Y} (hsingle : IsSingle registry.seats)
    (state : ConnectionState) (length : UInt32) (payload : Bytes) :
    Attends registry.seats state.infoHash [.message Command.extended.toByte length (0 :: payload)]
      (registry.receiveHandshake state payload).next.seats
      (registry.receiveHandshake state payload).output.events := by
  rw [receiveHandshake]
  split
  · exact .idle rfl
  · next handshake hdecode =>
    obtain ⟨calls, hcalls, hundergoes⟩ := greetAll_undergoes hY hsingle state handshake
    have htold : Event.reported [.extendedHandshake handshake] = [] := rfl
    refine ⟨calls, ?_, hundergoes.after_eq, ?_⟩
    · rcases hcalls with rfl | ⟨context, rfl, rfl⟩
      · exact .nil
      · exact .cons (.handshake hdecode fun _ h => h) .nil
    · change Event.reported ([.extendedHandshake handshake] ++ _) = _
      rw [Event.reported_append, htold, List.nil_append]
      exact hundergoes.reported_eq

omit [SubProtocol Y] in
theorem exists_split {registry : Registry Y} {index : Nat} {sub : Registered Y}
    (hsub : registry.subs[index]? = some sub) :
    ∃ front back, registry.seats = front ++ seat sub :: back ∧
      ∀ other, (registry.subs.set index other).map seat = front ++ seat other :: back := by
  obtain ⟨hindex, rfl⟩ := List.getElem?_eq_some_iff.mp hsub
  refine ⟨(registry.subs.take index).map seat, (registry.subs.drop (index + 1)).map seat, ?_, ?_⟩
  · rw [← List.map_cons, ← List.map_append, List.getElem_cons_drop, List.take_append_drop]
    rfl
  · intro other
    rw [List.set_eq_take_append_cons_drop, if_pos hindex, List.map_append, List.map_cons]

include hY in
theorem route_attends {registry : Registry Y} (hsingle : IsSingle registry.seats)
    (state : ConnectionState) {id : UInt8} (hid : id ≠ 0) (length : UInt32) (payload : Bytes) :
    Attends registry.seats state.infoHash [.message Command.extended.toByte length (id :: payload)]
      (registry.route state id payload).next.seats
      (registry.route state id payload).output.events := by
  rw [route]
  dsimp only
  split
  · exact .idle rfl
  · next sub hsub =>
    obtain ⟨front, back, hseats, hset⟩ := exists_split hsub
    change Attends _ _ _ ((registry.subs.set (id.toNat - 1) ⟨sub.name, _⟩).map seat) _
    rw [hset, hseats]
    rw [hseats] at hsingle
    cases hseat : seat sub with
    | none =>
      obtain ⟨hstill, hquiet⟩ := AnySubProtocol.onMessage_vacant hY hseat
        (registry.context state sub.name) payload
      change Attends _ _ _ (front ++ AnySubProtocol.asExchange? _ :: back) _
      rw [hstill]
      exact .idle hquiet
    | some exchange =>
      have hhandler := AnySubProtocol.eq_metadata_of_asExchange? hseat
      rw [hseat] at hsingle
      obtain ⟨hfront, hback⟩ := hsingle.split
      let call : MetadataExchange.Call := .message (registry.context state sub.name) payload
      rw [hhandler]
      refine ⟨[call], ?_, ?_⟩
      · refine .cons (.message ⟨hid, exchange, ?_⟩ fun _ h => h) .nil
        rw [← hseat, ← hseats, seats, List.getElem?_map, hsub]
        rfl
      · have hcalled : Undergoes [some exchange] [call] [some (exchange.call call).next]
            (exchange.call call).output.events := by
          refine ⟨rfl, ?_⟩
          simp [Seat.reported, MetadataExchange.raised]
        have hquiet : Event.reported [] = [] := rfl
        have hall := (Undergoes.vacant hfront hquiet).append (hcalled.append (.vacant hback hquiet))
        rw [List.append_nil] at hall
        exact hall

theorem next_onCommand_cons (registry : Registry Y) (state : ConnectionState) {id : UInt8}
    (hid : id ≠ 0) (payload : Bytes) :
    (registry.onCommand state (id :: payload)).next = (registry.route state id payload).next ∧
      (registry.onCommand state (id :: payload)).output =
        (registry.route state id payload).output := by
  rw [onCommand, if_neg hid]
  exact ⟨next_forgiveUnroutable _, output_forgiveUnroutable _⟩

include hY in
/-- An extended message may reach the exchange of a registry. -/
theorem onCommand_attends {registry : Registry Y} (hsingle : IsSingle registry.seats)
    (state : ConnectionState) (length : UInt32) (payload : Bytes) :
    Attends registry.seats state.infoHash [.message Command.extended.toByte length payload]
      (registry.onCommand state payload).next.seats
      (registry.onCommand state payload).output.events := by
  cases payload with
  | nil => exact .idle rfl
  | cons id payload =>
    by_cases hid : id = 0
    · rw [hid, onCommand, if_pos rfl]
      exact receiveHandshake_attends hY hsingle state length payload
    · obtain ⟨hnext, houtput⟩ := next_onCommand_cons registry state hid payload
      rw [hnext, houtput]
      exact route_attends hY hsingle state hid length payload

/-- A registry does not pass extended messages on. -/
theorem onCommand_result_ne (registry : Registry Y) (state : ConnectionState) (payload : Bytes) :
    (registry.onCommand state payload).result ≠ .ok false := by
  have hmap : ∀ result : Except Failure Unit, (result.map fun _ => true) ≠ .ok false := by
    intro result h
    cases result with
    | error failure => cases h
    | ok => cases h
  intro h
  cases payload with
  | nil => cases h
  | cons id payload =>
    rw [onCommand] at h
    split at h
    · exact hmap _ h
    · rw [forgiveUnroutable] at h
      split at h
      · cases h
      · exact hmap _ h

theorem seats_teardown (registry : Registry Y) :
    registry.teardown.1.seats = registry.seats.map (Seat.after [.teardown]) := by
  rw [teardown, seats, seats, List.map_map, List.map_map, List.map_map]
  apply List.map_congr_left
  intro sub _
  obtain ⟨name, handler⟩ := sub
  cases handler with
  | metadata exchange => rfl
  | peerExchange channel => rfl
  | custom sub => rfl

/-! ## Registries that are added to a connection -/

/-- The registry was made by registering sub-protocols.  Of these, an exchange is one that
fetches or one that serves, and was not called yet. -/
def IsFresh (registry : Registry Y) : Prop :=
  ∃ (base : Registry Y) (handlers : List (AnySubProtocol Y)), base.subs = [] ∧
    base.registerAll handlers = .ok registry ∧
    ∀ exchange, .metadata exchange ∈ handlers →
      exchange = .fetching ∨ ∃ metadata, exchange = .serving metadata

variable {registry : Registry Y}

theorem IsFresh.isSingle (h : registry.IsFresh) : IsSingle registry.seats := by
  obtain ⟨base, handlers, hempty, hregister, -⟩ := h
  have hnodup := (isNumbered_of_registerAll hempty hregister).nodup
  rw [List.Nodup, List.pairwise_map] at hnodup
  have hname : ∀ sub ∈ registry.subs, sub.name = SubProtocol.name sub.handler := by
    intro sub hsub
    rw [subs_of_registerAll hregister, hempty, List.nil_append] at hsub
    obtain ⟨handler, -, rfl⟩ := List.mem_map.mp hsub
    rfl
  rw [IsSingle, seats, List.pairwise_map]
  refine hnodup.imp_of_mem ?_
  intro first second hfirst hsecond hne
  cases hseat : seat first with
  | none => exact .inl rfl
  | some exchange =>
    cases hother : seat second with
    | none => exact .inr rfl
    | some other =>
      -- Both would have the name of the metadata exchange.
      rw [hname first hfirst, hname second hsecond,
        AnySubProtocol.eq_metadata_of_asExchange? hseat,
        AnySubProtocol.eq_metadata_of_asExchange? hother] at hne
      exact absurd rfl hne

theorem IsFresh.exchange (h : registry.IsFresh) {exchange : MetadataExchange}
    (hmem : some exchange ∈ registry.seats) :
    exchange = .fetching ∨ ∃ metadata, exchange = .serving metadata := by
  obtain ⟨base, handlers, hempty, hregister, hhandlers⟩ := h
  obtain ⟨sub, hsub, hseat⟩ := List.mem_map.mp hmem
  rw [subs_of_registerAll hregister, hempty, List.nil_append] at hsub
  obtain ⟨handler, hhandler, rfl⟩ := List.mem_map.mp hsub
  obtain rfl := AnySubProtocol.eq_metadata_of_asExchange? hseat
  exact hhandlers exchange hhandler

end Registry

end PeerLink
