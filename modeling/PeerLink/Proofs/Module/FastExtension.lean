import PeerLink.Module.FastExtension
import PeerLink.Proofs.FirstOccurrence
import PeerLink.Proofs.Wire.Layout

/-!
# What the fast extension keeps

Whatever commands come in, the fast extension queues one event for each that says something,
and refuses the others without a trace.  What it keeps of the peer can therefore be read off
the events: the pieces that were suggested and allowed, in order of first occurrence, and
which of all and none was announced last.
-/

namespace PeerLink

namespace Event

/-- The piece that the peer suggests. -/
def suggested? : Event → Option UInt32
  | .suggest index => some index
  | _ => none

/-- The piece that the peer allows. -/
def allowed? : Event → Option UInt32
  | .allowedFast index => some index
  | _ => none

/-- Whether the peer announces all pieces, or none. -/
def hasAll? : Event → Option Bool
  | .haveAll => some true
  | .haveNone => some false
  | _ => none

end Event

namespace FastExtension

/-! ## One command -/

/-- What a command with its payload says.  A payload that is too short for its fields says
nothing, and bytes behind them do not matter. -/
def told? : UInt8 × Bytes → Option Event
  | (13, payload) =>
    if 4 ≤ payload.length then some (.suggest (Bytes.wordAt payload 0)) else none
  | (14, _) => some .haveAll
  | (15, _) => some .haveNone
  | (16, payload) =>
    if 12 ≤ payload.length then
      some (.reject ⟨Bytes.wordAt payload 0, Bytes.wordAt payload 4, Bytes.wordAt payload 8⟩)
    else none
  | (17, payload) =>
    if 4 ≤ payload.length then some (.allowedFast (Bytes.wordAt payload 0)) else none
  | _ => none

theorem pieceIndex_eq_wordAt {payload : Bytes} (h : 4 ≤ payload.length) (what : String) :
    Inbound.pieceIndex what payload = .ok (Bytes.wordAt payload 0) := by
  obtain ⟨word, -, hword⟩ := Bytes.takeUInt32?_of_le h
  rw [Inbound.pieceIndex_of_le h hword, Bytes.wordAt, ← hword, UInt32.ofNat_toNat]

theorem range_eq_wordAt {payload : Bytes} (h : 12 ≤ payload.length) (what : String) :
    Inbound.range what payload =
      .ok ⟨Bytes.wordAt payload 0, Bytes.wordAt payload 4, Bytes.wordAt payload 8⟩ := by
  obtain ⟨range, -, hrange⟩ := BlockRequest.decode?_of_le h
  rw [Inbound.range_of_le h hrange, Bytes.wordAt, Bytes.wordAt, Bytes.wordAt, ← hrange.index,
    ← hrange.begin, ← hrange.length, UInt32.ofNat_toNat, UInt32.ofNat_toNat, UInt32.ofNat_toNat]

variable {command : UInt8} {payload : Bytes}

theorem onCommand_of_read (fast : FastExtension) (known : Command) {event : Event}
    (hread : read? known payload = some (.ok event)) :
    fast.onCommand known.toByte payload = .ok (fast.note event) true (.ofEvent event) := by
  rw [onCommand, Command.ofByte?_toByte, Option.bind_some, hread]

theorem onCommand_of_error (fast : FastExtension) (known : Command) {failure : Failure}
    (hread : read? known payload = some (.error failure)) :
    fast.onCommand known.toByte payload = .fail fast failure .none := by
  rw [onCommand, Command.ofByte?_toByte, Option.bind_some, hread]

/-- A command of the fast extension says something, or it is refused for the length of its
payload. -/
theorem onCommand_cases (fast : FastExtension) (hfirst : 13 ≤ command) (hlast : command ≤ 17)
    (payload : Bytes) :
    (∃ event, told? (command, payload) = some event ∧
      fast.onCommand command payload = .ok (fast.note event) true (.ofEvent event)) ∨
    ∃ what needed, told? (command, payload) = none ∧ payload.length < needed ∧
      fast.onCommand command payload =
        .fail fast (.malformedPayload (.tooShort what needed payload.length)) .none := by
  have hcommand : command = 13 ∨ command = 14 ∨ command = 15 ∨ command = 16 ∨ command = 17 := by
    simp only [UInt8.le_iff_toNat_le, ← UInt8.toNat_inj] at hfirst hlast ⊢
    simp only [UInt8.toNat_ofNat] at hfirst hlast ⊢
    omega
  rcases hcommand with rfl | rfl | rfl | rfl | rfl
  · rcases Nat.lt_or_ge payload.length 4 with hshort | hlong
    · refine .inr ⟨"suggest", 4, if_neg (Nat.not_le.mpr hshort), hshort, ?_⟩
      apply onCommand_of_error fast .suggest
      rw [read?, Inbound.pieceIndex_of_lt hshort]
      rfl
    · refine .inl ⟨_, if_pos hlong, ?_⟩
      apply onCommand_of_read fast .suggest
      rw [read?, pieceIndex_eq_wordAt hlong]
      rfl
  · exact .inl ⟨_, rfl, onCommand_of_read fast .haveAll rfl⟩
  · exact .inl ⟨_, rfl, onCommand_of_read fast .haveNone rfl⟩
  · rcases Nat.lt_or_ge payload.length 12 with hshort | hlong
    · refine .inr ⟨"reject", 12, if_neg (Nat.not_le.mpr hshort), hshort, ?_⟩
      apply onCommand_of_error fast .reject
      rw [read?, Inbound.range_of_lt hshort]
      rfl
    · refine .inl ⟨_, if_pos hlong, ?_⟩
      apply onCommand_of_read fast .reject
      rw [read?, range_eq_wordAt hlong]
      rfl
  · rcases Nat.lt_or_ge payload.length 4 with hshort | hlong
    · refine .inr ⟨"allowed fast", 4, if_neg (Nat.not_le.mpr hshort), hshort, ?_⟩
      apply onCommand_of_error fast .allowedFast
      rw [read?, Inbound.pieceIndex_of_lt hshort]
      rfl
    · refine .inl ⟨_, if_pos hlong, ?_⟩
      apply onCommand_of_read fast .allowedFast
      rw [read?, pieceIndex_eq_wordAt hlong]
      rfl

/-! ## Any number of commands -/

/-- The fast extension after some commands with their payloads, oldest first, and what it
queued on the way. -/
def serveAll (fast : FastExtension) : List (UInt8 × Bytes) → FastExtension × Output
  | [] => (fast, .none)
  | (command, payload) :: rest =>
    let reply := fast.onCommand command payload
    let served := reply.next.serveAll rest
    (served.1, reply.output ++ served.2)

/-- The commands that belong to the fast extension. -/
def AreOwn (commands : List (UInt8 × Bytes)) : Prop :=
  ∀ command ∈ commands, 13 ≤ command.1 ∧ command.1 ≤ 17

theorem serveAll_eq (fast : FastExtension) {commands : List (UInt8 × Bytes)}
    (h : AreOwn commands) :
    fast.serveAll commands =
      ((commands.filterMap told?).foldl note fast, ⟨[], commands.filterMap told?, []⟩) := by
  induction commands generalizing fast with
  | nil => rfl
  | cons command rest ih =>
    obtain ⟨command, payload⟩ := command
    obtain ⟨⟨hfirst, hlast⟩, hrest⟩ := List.forall_mem_cons.mp h
    rw [serveAll]
    rcases onCommand_cases fast hfirst hlast payload with
      ⟨event, htold, hreply⟩ | ⟨what, needed, htold, -, hreply⟩
    · rw [hreply, List.filterMap_cons_some htold]
      exact congrArg (fun served : FastExtension × Output =>
        (served.1, Output.ofEvent event ++ served.2)) (ih (fast.note event) hrest)
    · rw [hreply, List.filterMap_cons_none htold]
      exact congrArg (fun served : FastExtension × Output =>
        (served.1, Output.none ++ served.2)) (ih fast hrest)

/-- The fast extension kept what these events tell of the peer. -/
structure Keeps (fast : FastExtension) (events : List Event) : Prop where
  allowedByPeer : fast.allowedByPeer = (events.filterMap Event.allowed?).eraseDups
  suggested : fast.suggested = (events.filterMap Event.suggested?).eraseDups
  peerHasAll : fast.peerHasAll = true ↔ (events.filterMap Event.hasAll?).getLast? = some true
  peerHasNone : fast.peerHasNone = true ↔ (events.filterMap Event.hasAll?).getLast? = some false

theorem insertNew_eraseDups (pieces : List UInt32) (piece : UInt32) :
    insertNew pieces.eraseDups piece = (pieces ++ [piece]).eraseDups := by
  have hsame : pieces.eraseDups.contains piece = pieces.contains piece := by
    rw [Bool.eq_iff_iff]
    simp
  rw [insertNew, eraseDups_append_singleton, hsame]

theorem foldl_insertNew_eraseDups (pieces more : List UInt32) :
    more.foldl insertNew pieces.eraseDups = (pieces ++ more).eraseDups := by
  induction more generalizing pieces with
  | nil => rw [List.append_nil, List.foldl_nil]
  | cons piece rest ih => rw [List.foldl_cons, insertNew_eraseDups, ih, ← List.append_cons]

theorem keeps_empty : empty.Keeps [] where
  allowedByPeer := rfl
  suggested := rfl
  peerHasAll := by simp [empty]
  peerHasNone := by simp [empty]

theorem note_eq (fast : FastExtension) (event : Event) :
    fast.note event = { fast with
      allowedByPeer := event.allowed?.toList.foldl insertNew fast.allowedByPeer
      suggested := event.suggested?.toList.foldl insertNew fast.suggested
      peerHasAll := event.hasAll?.getD fast.peerHasAll
      peerHasNone := (event.hasAll?.map not).getD fast.peerHasNone } := by
  cases event with
  | _ => rfl

theorem Keeps.note {fast : FastExtension} {events : List Event} (h : fast.Keeps events)
    (event : Event) : (fast.note event).Keeps (events ++ [event]) := by
  have hmore {α : Type} (f : Event → Option α) :
      (events ++ [event]).filterMap f = events.filterMap f ++ (f event).toList :=
    List.filterMap_append
  rw [note_eq]
  constructor
  · rw [hmore, h.allowedByPeer, foldl_insertNew_eraseDups]
  · rw [hmore, h.suggested, foldl_insertNew_eraseDups]
  · rw [hmore]
    cases event.hasAll? with
    | none => simpa using h.peerHasAll
    | some all => simp
  · rw [hmore]
    cases event.hasAll? with
    | none => simpa using h.peerHasNone
    | some all => simp

theorem keeps_foldl_note (events : List Event) : (events.foldl note empty).Keeps events := by
  induction events using List.reverseRecOn with
  | nil => exact keeps_empty
  | append_singleton events event ih =>
    rw [List.foldl_append]
    exact ih.note event

end FastExtension
end PeerLink
