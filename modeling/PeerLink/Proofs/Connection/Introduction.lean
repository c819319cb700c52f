import PeerLink.Proofs.Connection.Finality
import PeerLink.Proofs.Connection.Greeting
import PeerLink.Proofs.Hex
import PeerLink.Proofs.Module.InTurn
import PeerLink.Proofs.Wire.Exactness

/-!
# All or nothing of our handshake

A call of `handshake` comes to one of four ends.  Bad arguments and a bad moment leave the
connection as it is.  Another info hash than the peer's, and a module that fails when it
hears of the handshake, take the connection down with nothing of the handshake written.
Otherwise the handshake is queued, every module heard of it once, and there is never a
second one.
-/

namespace PeerLink
namespace Connection

variable {X Y : Type}

/-! ## What a call can come to -/

/-- The text spells the info hash, the bytes are those of the peer id, and the moment is
right for our handshake. -/
structure Admits (c : Connection X Y) (text : String) (bytes : Bytes) (infoHash : Digest)
    (peerId : PeerId) : Prop where
  text : text.toLower = Hex.encode infoHash.toList
  bytes : peerId.bytes.toList = bytes
  up : c.state.phase ≠ .disconnected
  unsent : c.state.handshakeSent = false

/-- What the arguments or the moment of a call can have wrong. -/
inductive ObjectsTo (c : Connection X Y) (text : String) (bytes : Bytes) : Failure → Prop
  | length (h : (Bytes.ofText text).length ≠ 40) :
    ObjectsTo c text bytes (.invalidArgument (.infoHashLength (Bytes.ofText text).length))
  | digit {bad : Hex.BadDigit} (hcode : (Bytes.ofText text)[bad.position]? = some bad.code)
      (hvalue : Hex.value? bad.code = none) :
    ObjectsTo c text bytes (.invalidArgument (.infoHashDigit bad))
  | peerId (h : bytes.length ≠ 20) :
    ObjectsTo c text bytes (.invalidArgument (.peerIdLength bytes.length))
  | closed (h : c.state.phase = .disconnected) : ObjectsTo c text bytes .connectionClosed
  | sent (h : c.state.handshakeSent = true) :
    ObjectsTo c text bytes (.invalidArgument .handshakeSent)

variable [Capability X] [SubProtocol Y]

/-- What a module answers when it hears of our handshake. -/
def hears (c : Connection X Y) (infoHash : Digest) (peerId : PeerId) (m : AnyModule X Y) :
    Reply (AnyModule X Y) Unit :=
  Capability.onHandshake m (c.greet infoHash peerId).state
    ⟨Capability.reserved c.modules, infoHash, peerId⟩

/-- Whatever happens, all further calls of `handshake` are refused. -/
def NeverGreets (c : Connection X Y) : Prop :=
  ∀ moves text bytes, ∃ failure,
    (c.play moves).handshake text bytes = (c.play moves, .error failure)

/-- From `c` to `d` the connection was taken down, when it had these modules and these
events were raised. -/
structure Drops (c d : Connection X Y) (modules : List (AnyModule X Y)) (raised : List Event) :
    Prop where
  phase : d.state.phase = .disconnected
  transport : d.transport = c.transport.close
  modules : d.modules = modules.map fun m => (Capability.onTeardown m).1
  pending : d.outbox.pending = []
  events : d.outbox.events = c.outbox.events ++ raised ++ [.droppedConnection]
  unwritten : ∀ moves, (d.play moves).transport.written = c.transport.written
  once : d.NeverGreets

/-- From `c` to `d` our handshake was queued, and all modules heard of it in turn. -/
structure Introduces (c d : Connection X Y) (infoHash : Digest) (peerId : PeerId) : Prop where
  state : d.state = { c.state with
    infoHash := some infoHash
    localPeerId := some peerId
    reserved := d.state.reserved
    handshakeSent := true
    phase := if c.state.handshakeReceived then .established else .handshakeSent }
  reserved : ∀ (place : Nat) (hplace : place < 8), d.state.reserved[place] =
    (c.modules.map fun m => (Capability.descriptor m).reserved[place]).foldl (· ||| ·) 0
  length : (Handshake.encode ⟨d.state.reserved, infoHash, peerId⟩).length = 68
  heard : ∀ m, c.hears infoHash peerId m =
    Capability.onHandshake m d.state ⟨d.state.reserved, infoHash, peerId⟩
  pending : d.outbox.pending = c.outbox.pending ++
    Handshake.encode ⟨d.state.reserved, infoHash, peerId⟩ ::
      (c.modules.flatMap fun m => (c.hears infoHash peerId m).output.frames).map Frame.encode
  events : d.outbox.events =
    c.outbox.events ++ c.modules.flatMap fun m => (c.hears infoHash peerId m).output.events
  notes : d.outbox.notes =
    c.outbox.notes ++ c.modules.flatMap fun m => (c.hears infoHash peerId m).output.notes
  modules : d.modules = c.modules.map fun m => (c.hears infoHash peerId m).next
  rest : d = { c with state := d.state, modules := d.modules, outbox := d.outbox }
  once : d.NeverGreets

/-- What a call of `handshake` comes to, and why. -/
inductive Attempt (c : Connection X Y) (text : String) (bytes : Bytes) :
    Connection X Y × Except Failure Unit → Prop
  | refused {failure : Failure} (hnone : ∀ infoHash peerId, ¬ c.Admits text bytes infoHash peerId)
      (hobjects : c.ObjectsTo text bytes failure) : Attempt c text bytes (c, .error failure)
  | mismatched {d : Connection X Y} {infoHash remote : Digest} {peerId : PeerId}
      (hadmits : c.Admits text bytes infoHash peerId) (hremote : c.remoteInfoHash = some remote)
      (hne : remote ≠ infoHash) (hdrops : Drops c d c.modules []) :
    Attempt c text bytes (d, .error .infoHashMismatch)
  | failed {d : Connection X Y} {infoHash : Digest} {peerId : PeerId}
      {front behind : List (AnyModule X Y)} {m : AnyModule X Y} {failure : Failure}
      (hadmits : c.Admits text bytes infoHash peerId)
      (hremote : ∀ remote, c.remoteInfoHash = some remote → remote = infoHash)
      (hmodules : c.modules = front ++ m :: behind)
      (hfront : ∀ n ∈ front, (c.hears infoHash peerId n).result = .ok ())
      (hm : (c.hears infoHash peerId m).result = .error failure)
      (hdrops : Drops c d
        ((front ++ [m]).map (fun n => (c.hears infoHash peerId n).next) ++ behind)
        ((front ++ [m]).flatMap fun n => (c.hears infoHash peerId n).output.events)) :
    Attempt c text bytes (d, .error failure)
  | introduced {d : Connection X Y} {infoHash : Digest} {peerId : PeerId}
      (hadmits : c.Admits text bytes infoHash peerId)
      (hremote : ∀ remote, c.remoteInfoHash = some remote → remote = infoHash)
      (hmodules : ∀ m ∈ c.modules, (c.hears infoHash peerId m).result = .ok ())
      (hintroduces : Introduces c d infoHash peerId) : Attempt c text bytes (d, .ok ())

/-! ## Arguments -/

section Arguments

omit [Capability X] [SubProtocol Y]

variable {c : Connection X Y} {text : String} {bytes : Bytes}

theorem handshakeArguments_eq_ok_iff {infoHash : Digest} {peerId : PeerId} :
    c.handshakeArguments text bytes = .ok (infoHash, peerId) ↔
      c.Admits text bytes infoHash peerId := by
  constructor
  · intro h
    obtain ⟨hup, hunsent⟩ := handshakeArguments_eq_ok h
    rw [handshakeArguments] at h
    obtain ⟨infoHash', hparsed, h⟩ := bind_eq_ok_iff.mp h
    obtain ⟨peerId', hread, h⟩ := bind_eq_ok_iff.mp h
    rw [hup, hunsent] at h
    obtain ⟨rfl, rfl⟩ := Prod.mk.inj (Except.ok.inj h)
    exact ⟨Digest.parse_eq_ok_iff.mp hparsed, PeerId.ofBytes_eq_ok_iff.mp hread,
      isDown_eq_false_iff.mp hup, hunsent⟩
  · rintro ⟨htext, hbytes, hup, hunsent⟩
    rw [handshakeArguments, Digest.parse_eq_ok_iff.mpr htext, PeerId.ofBytes_eq_ok_iff.mpr hbytes]
    change (if c.isDown then _ else _) = _
    rw [isDown_eq_false_iff.mpr hup, hunsent]
    rfl

theorem objectsTo_of_handshakeArguments {failure : Failure}
    (h : c.handshakeArguments text bytes = .error failure) : c.ObjectsTo text bytes failure := by
  rw [handshakeArguments] at h
  cases hparsed : Digest.parse text with
  | error bad =>
    rw [hparsed] at h
    obtain rfl := Except.error.inj h
    rcases Digest.of_parse_eq_error hparsed with ⟨hlength, rfl⟩ | ⟨bad, hcode, hvalue, rfl⟩
    · exact .length hlength
    · exact .digit hcode hvalue
  | ok infoHash =>
    rw [hparsed] at h
    cases hread : PeerId.ofBytes bytes with
    | error bad =>
      rw [hread] at h
      obtain rfl := Except.error.inj h
      obtain ⟨hlength, rfl⟩ := PeerId.of_ofBytes_eq_error hread
      exact .peerId hlength
    | ok peerId =>
      rw [hread] at h
      change (if c.isDown then _ else _) = _ at h
      split at h
      · next hdown =>
        obtain rfl := Except.error.inj h
        exact .closed (by simpa [isDown] using hdown)
      · split at h
        · next hsent =>
          obtain rfl := Except.error.inj h
          exact .sent hsent
        · cases h

end Arguments

/-! ## No second handshake -/

variable {c d : Connection X Y} {infoHash : Digest} {peerId : PeerId}

theorem NeverGreets.of_handshakeSent (h : c.state.handshakeSent = true) : c.NeverGreets := by
  intro moves text bytes
  have hsent := handshakeSent_play h moves
  cases harguments : (c.play moves).handshakeArguments text bytes with
  | error failure => exact ⟨failure, by rw [handshake, harguments]⟩
  | ok arguments =>
    have hunsent := (handshakeArguments_eq_ok harguments).2
    rw [hsent] at hunsent
    cases hunsent

theorem NeverGreets.of_isDown (h : c.isDown = true) : c.NeverGreets := by
  intro moves text bytes
  exact (isFinal_of_isDown (play_isDown h moves)).handshake text bytes

/-! ## A connection that is taken down -/

theorem Steps.written_of_isDown (hsteps : Steps c d) (h : c.isDown = true) :
    d.transport.written = c.transport.written := by
  have hkept : d.isDown = true ∧ d.transport.written = c.transport.written := by
    apply hsteps.keeps (p := fun d => d.isDown = true ∧ d.transport.written = c.transport.written)
    · rintro d e heffect ⟨hdown, hwritten⟩
      cases heffect with
      | queued _ _ _ hsame hdown' => exact ⟨hdown'.trans hdown, hsame.trans hwritten⟩
      | flushed _ hup _ _ _ _ =>
        rw [hup] at hdown
        cases hdown
      | dropped hup _ _ _ =>
        rw [hup] at hdown
        cases hdown
    · exact ⟨h, rfl⟩
  exact hkept.2

theorem written_play_of_isDown (h : c.isDown = true) (moves : List (Move X Y)) :
    (c.play moves).transport.written = c.transport.written := by
  induction moves using List.reverseRecOn with
  | nil => rfl
  | append_singleton moves m ih =>
    have hdown := play_isDown h moves
    rw [play_concat]
    rcases move_steps (c.play moves) m with hsteps | ⟨-, -, hup, -, -⟩
    · exact (hsteps.written_of_isDown hdown).trans ih
    · rw [hdown] at hup
      cases hup

theorem teardown_drops {raised : List Event} (hup : d.isDown = false)
    (htransport : d.transport = c.transport)
    (hevents : d.outbox.events = c.outbox.events ++ raised) :
    Drops c d.teardown d.modules raised := by
  have hdown := isDown_teardown d
  have hteardown : d.teardown.transport = d.transport.close ∧
      d.teardown.modules = (Capability.teardownAll d.modules).1 ∧
      d.teardown.outbox.pending = [] ∧
      d.teardown.outbox.events = d.outbox.events ++ [.droppedConnection] := by
    rw [teardown, hup]
    exact ⟨rfl, rfl, rfl, rfl⟩
  obtain ⟨hclosed, hmodules, hpending, hqueue⟩ := hteardown
  refine ⟨by simpa [isDown] using hdown, ?_, ?_, hpending, ?_, ?_, .of_isDown hdown⟩
  · rw [hclosed, htransport]
  · rw [hmodules, Capability.teardownAll_eq]
  · rw [hqueue, hevents]
  · intro moves
    rw [written_play_of_isDown hdown, hclosed, htransport]
    rfl

/-! ## A handshake that is queued -/

theorem state_greet (hup : c.isDown = false) (infoHash : Digest) (peerId : PeerId) :
    (c.greet infoHash peerId).state = { c.state with
      infoHash := some infoHash
      localPeerId := some peerId
      reserved := Capability.reserved c.modules
      handshakeSent := true
      phase := if c.state.handshakeReceived then .established else .handshakeSent } := by
  have hphase := isDown_eq_false_iff.mp hup
  rw [greet, ConnectionState.advancePhase, if_neg hphase]
  rfl

theorem introduce_eq (c : Connection X Y) (infoHash : Digest) (peerId : PeerId) :
    (c.greet infoHash peerId).introduce ⟨Capability.reserved c.modules, infoHash, peerId⟩ =
      .each (c.hears infoHash peerId) c.modules := rfl

/-- Modules that all answer well each heard of the handshake, and what they queue is queued
behind it. -/
theorem introduced_eq (hmodules : ∀ m ∈ c.modules, (c.hears infoHash peerId m).result = .ok ()) :
    c.introduced infoHash peerId = { c with
      state := (c.greet infoHash peerId).state
      modules := c.modules.map fun m => (c.hears infoHash peerId m).next
      outbox := (c.greet infoHash peerId).outbox.add
        (.join (c.modules.map fun m => (c.hears infoHash peerId m).output)) } := by
  rw [introduced, introduce_eq, Reply.each_of_ok hmodules]
  rfl

theorem introduced_introduces (hup : c.isDown = false)
    (hmodules : ∀ m ∈ c.modules, (c.hears infoHash peerId m).result = .ok ()) :
    Introduces c (c.introduced infoHash peerId) infoHash peerId := by
  have hstate := state_greet hup infoHash peerId
  have hreserved : (c.greet infoHash peerId).state.reserved = Capability.reserved c.modules := by
    rw [hstate]
  rw [introduced_eq hmodules, Output.join_map]
  refine ⟨?_, ?_, Handshake.length_encode _, ?_, ?_, rfl, rfl, rfl, rfl, ?_⟩
  · exact hstate.trans (by rw [hreserved])
  · intro place hplace
    change (c.greet infoHash peerId).state.reserved[place] = _
    rw [hreserved]
    exact Capability.getElem_reserved c.modules hplace
  · intro m
    rw [hears, ← hreserved]
  · change (c.outbox.pending ++ [_]) ++ _ = _
    rw [hreserved, List.append_assoc]
    rfl
  · exact .of_handshakeSent (congrArg ConnectionState.handshakeSent hstate)

/-- The first module that fails takes the connection down.  The ones before it and it heard
of the handshake, and the others did not. -/
theorem introduced_teardown_drops {front behind : List (AnyModule X Y)} {m : AnyModule X Y}
    {failure : Failure} (hup : c.isDown = false) (hmodules : c.modules = front ++ m :: behind)
    (hfront : ∀ n ∈ front, (c.hears infoHash peerId n).result = .ok ())
    (hm : (c.hears infoHash peerId m).result = .error failure) :
    ((c.greet infoHash peerId).introduce
        ⟨Capability.reserved c.modules, infoHash, peerId⟩).result = .error failure ∧
      Drops c (c.introduced infoHash peerId).teardown
        ((front ++ [m]).map (fun n => (c.hears infoHash peerId n).next) ++ behind)
        ((front ++ [m]).flatMap fun n => (c.hears infoHash peerId n).output.events) := by
  have hreply := Reply.each_of_error behind hfront hm
  rw [← hmodules, ← introduce_eq] at hreply
  have hheard : (c.introduced infoHash peerId).modules =
      (front ++ [m]).map (fun n => (c.hears infoHash peerId n).next) ++ behind :=
    congrArg Reply.next hreply
  have hraised : (c.introduced infoHash peerId).outbox.events = c.outbox.events ++
      (front ++ [m]).flatMap fun n => (c.hears infoHash peerId n).output.events := by
    change c.outbox.events ++ ((c.greet infoHash peerId).introduce _).output.events = _
    rw [hreply]
    change c.outbox.events ++ (Output.join _).events = _
    rw [Output.join_map]
  have hlive : (c.introduced infoHash peerId).isDown = false := greet_isDown hup _ _
  refine ⟨congrArg Reply.result hreply, ?_⟩
  rw [← hheard]
  exact teardown_drops hlive rfl hraised

/-! ## Calls of `handshake` -/

theorem queueHandshake_attempt {text : String} {bytes : Bytes}
    (hadmits : c.Admits text bytes infoHash peerId)
    (hremote : ∀ remote, c.remoteInfoHash = some remote → remote = infoHash) :
    Attempt c text bytes (c.queueHandshake infoHash peerId) := by
  have hup := isDown_eq_false_iff.mpr hadmits.up
  rcases Reply.each_cases (c.hears infoHash peerId) c.modules with
    hall | ⟨front, m, behind, failure, hmodules, hfront, hm⟩
  · rcases queueHandshake_cases c infoHash peerId with ⟨-, hqueued⟩ | ⟨failure, hfailed, -⟩
    · rw [hqueued]
      exact .introduced hadmits hremote hall (introduced_introduces hup hall)
    · rw [introduce_eq, Reply.each_result_eq_ok hall] at hfailed
      cases hfailed
  · obtain ⟨hresult, hdrops⟩ := introduced_teardown_drops hup hmodules hfront hm
    rcases queueHandshake_cases c infoHash peerId with
      ⟨hintroduced, -⟩ | ⟨failure', hfailed, hqueued⟩
    · rw [hresult] at hintroduced
      cases hintroduced
    · obtain rfl := Except.error.inj (hresult.symm.trans hfailed)
      rw [hqueued]
      exact .failed hadmits hremote hmodules hfront hm hdrops

/-- Every call of `handshake` comes to one of the four ends, whatever the modules do: it
changes nothing, it takes the connection down without a byte of a handshake, or it queues
one handshake for good. -/
theorem handshake_all_or_nothing (c : Connection X Y) (text : String) (bytes : Bytes) :
    Attempt c text bytes (c.handshake text bytes) := by
  rw [handshake]
  split
  · next failure harguments =>
    refine .refused ?_ (objectsTo_of_handshakeArguments harguments)
    intro infoHash peerId hadmits
    rw [handshakeArguments_eq_ok_iff.mpr hadmits] at harguments
    cases harguments
  · next infoHash peerId harguments =>
    have hadmits := handshakeArguments_eq_ok_iff.mp harguments
    split
    · next hother =>
      obtain ⟨remote, hremote, hne⟩ := (Option.any_eq_true _ _).mp hother
      exact .mismatched hadmits hremote (bne_iff_ne.mp hne)
        (teardown_drops (isDown_eq_false_iff.mpr hadmits.up) rfl (List.append_nil _).symm)
    · next hsame =>
      refine queueHandshake_attempt hadmits ?_
      intro remote hremote
      rw [hremote] at hsame
      simpa using hsame

end Connection
end PeerLink
