import Mathlib.Data.List.Induction
import PeerLink.Proofs.Connection.Standing
import PeerLink.Proofs.Connection.Telling

/-!
# A teardown is final

A run takes the connection down at most once.  The owner is told about it in that move
and behind all else, every module that is there is ended in it and in no other move, and
all that is called later leaves the connection down and queues no event.
-/

namespace PeerLink
namespace Connection

variable {X Y : Type} [Capability X] [SubProtocol Y]

/-- The events that moves hand to the owner. -/
def taken (c : Connection X Y) : List (Move X Y) → List Event
  | [] => []
  | m :: rest => c.takenBy m ++ (c.move m).taken rest

/-- All events that were queued in a run, oldest first: those that the owner took, and
those that still wait. -/
def history (start : Connection X Y) (moves : List (Move X Y)) : List Event :=
  start.taken moves ++ (start.play moves).outbox.events

/-- Nothing brings the connection up again, and the calls that need it up fail. -/
structure IsFinal (c : Connection X Y) : Prop where
  stays : ∀ later : List (Move X Y), (c.play later).isDown = true
  process : ∀ now, c.process now = (c, false)
  connect : c.connect = (c, .error .connectionClosed)
  handshake : ∀ infoHash peerId, ∃ failure, c.handshake infoHash peerId = (c, .error failure)
  send : ∀ now message, c.send now message = (c, .error .connectionClosed)
  sendBitfield : ∀ now pieces disguised,
    (c.sendBitfield now pieces disguised).2 = .error .connectionClosed
  sendExtended : ∀ name payload, c.sendExtended name payload = (c, .error .connectionClosed)

/-- No move of the run ends a module: those of every moment are there at every later one,
after some work. -/
def KeepsThroughout (start : Connection X Y) (moves : List (Move X Y)) : Prop :=
  ∀ earlier later, earlier ++ later <+: moves →
    Keeps (start.play earlier) (start.play (earlier ++ later))

/-- In a run, the move `m` behind `before` takes the connection down, which is told once and
last.  It ends every module that is there, and no other move ends one. -/
structure DropsAt (start : Connection X Y) (before : List (Move X Y)) (m : Move X Y)
    (after : List (Move X Y)) : Prop where
  up : (start.play before).isDown = false
  down : (start.play (before ++ [m])).isDown = true
  told : ∃ earlier, .droppedConnection ∉ earlier ∧
    start.history (before ++ [m]) = earlier ++ [.droppedConnection]
  silence : start.history (before ++ m :: after) = start.history (before ++ [m])
  keepsBefore : start.KeepsThroughout before
  ends : Ends (start.play before) (start.play (before ++ [m]))
  keepsAfter : (start.play (before ++ [m])).KeepsThroughout after

/-! ## After the teardown -/

theorem process_eq_false_iff (c : Connection X Y) (now : Nat) :
    (c.process now).2 = false ↔ (c.process now).1.isDown = true := by
  rw [process]
  split
  · next hdown => simp [hdown]
  · next hup =>
    have hup : c.isDown = false := by simpa using hup
    split
    · split
      · simp [hup]
      · simp [isDown_teardown]
    · have hpoll := (poll_pollSteps hup now).2
      split
      · next d hd =>
        rw [hd] at hpoll
        simp [hpoll]
      · simp [isDown_teardown]

variable {start c d : Connection X Y} {moves : List (Move X Y)}

theorem Steps.isDown (hsteps : Steps c d) (h : c.isDown = true) : d.isDown = true := by
  induction hsteps with
  | refl => exact h
  | tail _ hstep ih =>
    cases hstep.standingEffect with
    | same hsame => exact (isDown_eq_of_standing hsame).trans ih
    | opened hup _ => simp [ih] at hup
    | accepted _ hup _ _ => simp [ih] at hup
    | closed hup _ => simp [ih] at hup

theorem play_isDown (h : c.isDown = true) (later : List (Move X Y)) :
    (c.play later).isDown = true := by
  induction later using List.reverseRecOn with
  | nil => exact h
  | append_singleton later m ih =>
    rw [play_concat]
    rcases move_steps (c.play later) m with hsteps | ⟨infoHash, peerId, hup, -, -⟩
    · exact hsteps.isDown ih
    · simp [ih] at hup

omit [Capability X] [SubProtocol Y] in
theorem sendAll_of_isDown (h : c.isDown = true) (now : Nat) (message : Message)
    (rest : List Message) :
    c.sendAll now (message :: rest) = (c, .error .connectionClosed) := by
  rw [sendAll, send, if_pos h]

theorem isFinal_of_isDown (h : c.isDown = true) : c.IsFinal := by
  have hsend : ∀ now message, c.send now message = (c, .error .connectionClosed) := by
    intro now message
    rw [send, if_pos h]
  constructor
  · exact play_isDown h
  · intro now
    rw [process, if_pos h]
  · rw [connect, if_pos h]
  · intro infoHash peerId
    cases harguments : c.handshakeArguments infoHash peerId with
    | error failure => exact ⟨failure, by rw [handshake, harguments]⟩
    | ok arguments =>
      have hup := (handshakeArguments_eq_ok harguments).1
      simp [h] at hup
  · exact hsend
  · intro now pieces disguised
    rw [sendBitfield, sendBitfieldWith]
    split
    · have hdead : ∀ picker, isDown { c with picker } = true := fun _ => h
      exact congrArg Prod.snd (sendAll_of_isDown (hdead _) now _ _)
    · rw [hsend]
  · intro name payload
    rw [sendExtended, if_pos h]

/-! ## Runs -/

theorem taken_concat (start : Connection X Y) (moves : List (Move X Y)) (m : Move X Y) :
    start.taken (moves ++ [m]) = start.taken moves ++ (start.play moves).takenBy m := by
  induction moves generalizing start with
  | nil => exact List.append_nil _
  | cons first rest ih =>
    calc
      start.taken (first :: rest ++ [m]) =
          start.takenBy first ++ (start.move first).taken (rest ++ [m]) := rfl
      _ = start.takenBy first ++
          ((start.move first).taken rest ++ ((start.move first).play rest).takenBy m) := by rw [ih]
      _ = start.taken (first :: rest) ++ (start.play (first :: rest)).takenBy m :=
          (List.append_assoc ..).symm

/-- What a move tells goes behind all that was told before. -/
theorem history_concat (start : Connection X Y) (moves : List (Move X Y)) (m : Move X Y)
    {raised : List Event}
    (h : (start.play moves).takenBy m ++ ((start.play moves).move m).outbox.events =
      (start.play moves).outbox.events ++ raised) :
    start.history (moves ++ [m]) = start.history moves ++ raised := by
  calc
    start.history (moves ++ [m]) = start.taken moves ++ (start.play moves).takenBy m ++
        ((start.play moves).move m).outbox.events := by rw [history, taken_concat, play_concat]
    _ = start.taken moves ++ ((start.play moves).outbox.events ++ raised) := by
        rw [List.append_assoc, h]
    _ = start.history moves ++ raised := (List.append_assoc ..).symm

theorem keepsThroughout_nil (start : Connection X Y) : start.KeepsThroughout [] := by
  intro earlier later hprefix
  obtain ⟨rfl, rfl⟩ := List.append_eq_nil_iff.mp (List.prefix_nil.mp hprefix)
  exact .of_modules_eq rfl

theorem KeepsThroughout.concat {m : Move X Y} (h : start.KeepsThroughout moves)
    (hstep : Keeps (start.play moves) ((start.play moves).move m)) :
    start.KeepsThroughout (moves ++ [m]) := by
  intro earlier later hprefix
  rcases List.prefix_concat_iff.mp hprefix with hwhole | hinside
  · -- The last moment of the run is new: it is the first one too, or `m` leads to it.
    cases later using List.reverseRecOn with
    | nil =>
      rw [List.append_nil]
      exact .of_modules_eq rfl
    | append_singleton front last =>
      rw [← List.append_assoc] at hwhole
      obtain ⟨rfl, hlast⟩ := List.append_inj' hwhole rfl
      obtain rfl := List.singleton_inj.mp hlast
      rw [← List.append_assoc, play_concat]
      exact (h earlier front (List.prefix_refl _)).trans hstep
  · exact h earlier later hinside

section Quiet

variable (hX : Capability.Queues (Output.Raises (· ≠ .droppedConnection)) X)
  (hY : SubProtocol.Queues (Output.Raises (· ≠ .droppedConnection)) Y)
include hX hY

theorem DropsAt.concat {before after : List (Move X Y)} {m : Move X Y}
    (h : DropsAt start before m after) (later : Move X Y) :
    DropsAt start before m (after ++ [later]) := by
  have hplay : start.play (before ++ m :: after) = (start.play (before ++ [m])).play after := by
    rw [← play_append, List.append_assoc, List.singleton_append]
  have hdown : (start.play (before ++ m :: after)).isDown = true := by
    rw [hplay]
    exact play_isDown h.down after
  have hmoves : before ++ m :: (after ++ [later]) = before ++ m :: after ++ [later] := by simp
  cases move_tells hX hY (start.play (before ++ m :: after)) later with
  | drops raised hup => simp [hdown] at hup
  | works raised hqueue hraised hdead hsame hkeeps =>
    refine ⟨h.up, h.down, h.told, ?_, h.keepsBefore, h.ends, ?_⟩
    · rw [hmoves, history_concat start _ later hqueue, hdead hdown, List.append_nil]
      exact h.silence
    · rw [hplay] at hkeeps
      exact h.keepsAfter.concat hkeeps

/-- A run leaves the connection up and does not say that it was dropped, or one of its
moves takes it down. -/
theorem play_tells (hup : start.isDown = false) (hqueue : .droppedConnection ∉ start.outbox.events)
    (moves : List (Move X Y)) :
    (start.play moves).isDown = false ∧ .droppedConnection ∉ start.history moves ∧
        start.KeepsThroughout moves ∨
      (start.play moves).isDown = true ∧ ∃ before m after, moves = before ++ m :: after ∧
        DropsAt start before m after := by
  induction moves using List.reverseRecOn with
  | nil => exact .inl ⟨hup, hqueue, keepsThroughout_nil start⟩
  | append_singleton moves m ih =>
    rcases ih with ⟨hlive, hquiet, hkeeps⟩ | ⟨hdown, before, first, after, rfl, hdrops⟩
    · cases move_tells hX hY (start.play moves) m with
      | works raised hraising hraised hdead hsame hworks =>
        left
        refine ⟨?_, ?_, hkeeps.concat hworks⟩
        · rw [play_concat]
          exact hsame.trans hlive
        · rw [history_concat start moves m hraising]
          simp [hquiet, hraised]
      | drops raised _ hraising hraised hdown hends =>
        right
        rw [List.append_assoc] at hraising
        have hdown : (start.play (moves ++ [m])).isDown = true := by
          rw [play_concat]
          exact hdown
        refine ⟨hdown, moves, m, [], rfl, hlive, hdown, ?_, rfl, hkeeps, ?_,
          keepsThroughout_nil _⟩
        · refine ⟨start.history moves ++ raised, by simp [hquiet, hraised], ?_⟩
          rw [history_concat start moves m hraising, List.append_assoc]
        · rw [play_concat]
          exact hends
    · right
      refine ⟨?_, before, first, after ++ [m], by simp, hdrops.concat hX hY m⟩
      rw [play_append]
      exact play_isDown hdown [m]

theorem droppedConnection_not_mem_history (hup : start.isDown = false)
    (hqueue : .droppedConnection ∉ start.outbox.events)
    (hlive : (start.play moves).isDown = false) : .droppedConnection ∉ start.history moves := by
  rcases play_tells hX hY hup hqueue moves with ⟨-, hquiet, -⟩ | ⟨hdown, -⟩
  · exact hquiet
  · simp [hlive] at hdown

/-- In every run in which custom modules do not say so themselves, the owner is told
that the connection was dropped when it goes down, and only then: once, and behind all
other events.  Every module that is there is ended in that move, and none is ended in any
other: between two moments before it, between two behind it, and in a run without it,
modules only work.  A connection that is down is final, and a round answers whether the
connection is up. -/
theorem drops_once_and_for_all (transport : Transport) (config : Config) (now : Nat)
    (moves : List (Move X Y)) :
    let start : Connection X Y := new transport config now
    let final := start.play moves
    (∀ time, (final.process time).2 = false ↔ (final.process time).1.isDown = true) ∧
      (final.isDown = false →
        .droppedConnection ∉ start.history moves ∧ start.KeepsThroughout moves) ∧
      (final.isDown = true →
        final.IsFinal ∧ ∃ before m after, moves = before ++ m :: after ∧
          DropsAt start before m after) := by
  intro start final
  have hup : start.isDown = false := isDown_new transport config now
  have hrun := play_tells hX hY hup List.not_mem_nil moves
  refine ⟨process_eq_false_iff final, ?_, ?_⟩
  · intro hlive
    rcases hrun with ⟨-, hkept⟩ | ⟨hdown, -⟩
    · exact hkept
    · simp [final, hdown] at hlive
  · intro hdown
    rcases hrun with ⟨hlive, -⟩ | ⟨-, hdrops⟩
    · simp [final, hlive] at hdown
    · exact ⟨isFinal_of_isDown hdown, hdrops⟩

end Quiet

/-- A connection with two modules whose peer closes the channel.  The owner takes the
event of the teardown, and tries to go on; a module that comes too late is not ended. -/
theorem drops_once_and_for_all_of_close :
    let start : Connection Empty Empty := new (.new true) .standard 0
    let moves : List (Move Empty Empty) :=
      [.call 0 (.addModule (.fast .empty)), .call 0 (.addModule (.registry .new)),
        .call 1 .process, .stir (.feed [.data []]), .call 2 .process, .call 3 .drainEvents,
        .call 4 .disconnect, .call 5 (.addModule (.fast .empty)), .call 6 .process]
    let final := start.play moves
    final.isDown = true ∧ start.history moves = [.noData, .droppedConnection] ∧
      final.modules.length = 3 ∧ (start.play (moves.take 4)).modules.length = 2 ∧
      final.IsFinal ∧ DropsAt start (moves.take 4) (.call 2 .process) (moves.drop 5) := by
  intro start moves final
  have hdown : final.isDown = true := by decide +kernel
  have hhistory : start.history moves = [.noData, .droppedConnection] := by decide +kernel
  have hplace : ∀ n < moves.length, (start.play (moves.take n)).isDown = false →
      (start.play (moves.take (n + 1))).isDown = true → n = 4 := by decide +kernel
  obtain ⟨-, -, hdrops⟩ := drops_once_and_for_all Capability.queues_empty SubProtocol.queues_empty
    (.new true) .standard 0 moves
  obtain ⟨hfinal, before, m, after, hmoves, hat⟩ := hdrops hdown
  have hbefore : moves.take before.length = before := by rw [hmoves, List.take_left]
  have hthere : moves.take (before.length + 1) = before ++ [m] := by
    rw [hmoves, List.take_length_add_append]
    rfl
  have hbound : before.length < moves.length := by simp [hmoves]
  have hfour : before.length = 4 :=
    hplace _ hbound (hbefore.symm ▸ hat.up) (hthere.symm ▸ hat.down)
  have hsplit : moves.take 4 ++ .call 2 .process :: moves.drop 5 = before ++ m :: after := hmoves
  obtain ⟨rfl, hrest⟩ := List.append_inj hsplit hfour.symm
  obtain ⟨rfl, rfl⟩ := List.cons.inj hrest
  exact ⟨hdown, hhistory, by decide +kernel, by decide +kernel, hfinal, hat⟩

end Connection
end PeerLink
