import Mathlib.Logic.Function.Basic
import PeerLink.Connection.Link
import PeerLink.Proofs.Connection.Fifo
import PeerLink.Proofs.Connection.Reliable

/-!
# Two connections and the bytes between them

What each of two connections writes is on its way to the other until it is carried there,
in order, in chunks of any size and at any time.  Between the chunks either side moves as
it would alone, so each of the two makes a run of its own, `Joint.side_go`, and all that
ever came in to one is the front of what the other wrote, `Joint.incoming_append_onWay`.
-/

namespace PeerLink

/-- One of the two ends of a channel. -/
inductive Side where
  | near
  | far
  deriving DecidableEq, Repr

namespace Side

def other : Side → Side
  | near => far
  | far => near

@[simp]
theorem other_other (s : Side) : s.other.other = s := by
  cases s <;> rfl

end Side

/-- Two connections.  Of what the other side wrote, so many bytes were carried to this
one. -/
structure Joint (X Y : Type) where
  side : Side → Connection X Y
  carried : Side → Nat

/-- What can happen to two connections: one of them moves, and nothing comes in by that,
or bytes are carried to it. -/
inductive Happening (X Y : Type) where
  | move (s : Side) (m : Move X Y) (hm : m.incoming = [])
  | carry (s : Side) (count : Nat)

namespace Happening

variable {X Y : Type}

/-- The owner of a side makes a call. -/
def call (s : Side) (now : Nat) (call : Call X Y) : Happening X Y :=
  .move s (.call now call) rfl

/-- The transport of a side answers the next writes so. -/
def planWrites (s : Side) (answers : List WriteAnswer) : Happening X Y :=
  .move s (.stir (.planWrites answers)) rfl

end Happening

/-- The arrival of bytes.  No bytes at all are not an arrival. -/
def Move.arrivals {X Y : Type} (bytes : Bytes) : List (Move X Y) :=
  if bytes.isEmpty then [] else [.stir (.feed [.data bytes])]

theorem Move.incoming_arrivals {X Y : Type} (bytes : Bytes) :
    (arrivals bytes : List (Move X Y)).flatMap incoming = bytes := by
  rw [arrivals]
  split
  · next hempty => exact (List.isEmpty_iff.mp hempty).symm
  · simp [incoming, Transport.unread, ReadAnswer.bytes]

theorem Connection.play_arrivals {X Y : Type} [Capability X] [SubProtocol Y]
    (c : Connection X Y) (bytes : Bytes) : c.play (Move.arrivals bytes) = c.deliver bytes := by
  rw [Move.arrivals, deliver]
  split <;> rfl

namespace Joint

variable {X Y : Type}

/-- The bytes on their way to a side. -/
def onWay (joint : Joint X Y) (s : Side) : Bytes :=
  (joint.side s.other).transport.written.drop (joint.carried s)

variable [Capability X] [SubProtocol Y]

def happen (joint : Joint X Y) : Happening X Y → Joint X Y
  | .move s m _ => { joint with side := Function.update joint.side s ((joint.side s).move m) }
  | .carry s count =>
    let chunk := (joint.onWay s).take count
    { side := Function.update joint.side s ((joint.side s).deliver chunk)
      carried := Function.update joint.carried s (joint.carried s + chunk.length) }

/-- The two connections after all this happened, oldest first. -/
def go (joint : Joint X Y) (happenings : List (Happening X Y)) : Joint X Y :=
  happenings.foldl happen joint

theorem go_concat (joint : Joint X Y) (happenings : List (Happening X Y)) (h : Happening X Y) :
    joint.go (happenings ++ [h]) = (joint.go happenings).happen h := by
  simp [go]

omit [Capability X] [SubProtocol Y] in
/-- What happens, as moves of one side. -/
def movesIn (joint : Joint X Y) (s : Side) : Happening X Y → List (Move X Y)
  | .move t m _ => if t = s then [m] else []
  | .carry t count => if t = s then Move.arrivals ((joint.onWay s).take count) else []

/-- All that happens, as the run of one side. -/
def movesOf (joint : Joint X Y) (s : Side) : List (Happening X Y) → List (Move X Y)
  | [] => []
  | h :: rest => joint.movesIn s h ++ (joint.happen h).movesOf s rest

theorem movesOf_concat (joint : Joint X Y) (s : Side) (happenings : List (Happening X Y))
    (h : Happening X Y) :
    joint.movesOf s (happenings ++ [h]) =
      joint.movesOf s happenings ++ (joint.go happenings).movesIn s h := by
  induction happenings generalizing joint with
  | nil => exact List.append_nil _
  | cons first rest ih =>
    change joint.movesIn s first ++ (joint.happen first).movesOf s (rest ++ [h]) = _
    rw [ih, ← List.append_assoc]
    rfl

theorem side_happen (joint : Joint X Y) (s : Side) (h : Happening X Y) :
    (joint.happen h).side s = (joint.side s).play (joint.movesIn s h) := by
  cases h with
  | move t m hm =>
    by_cases ht : t = s
    · subst ht
      rw [movesIn, if_pos rfl]
      exact Function.update_self ..
    · rw [movesIn, if_neg ht]
      exact Function.update_of_ne (Ne.symm ht) ..
  | carry t count =>
    by_cases ht : t = s
    · subst ht
      rw [movesIn, if_pos rfl, Connection.play_arrivals]
      exact Function.update_self ..
    · rw [movesIn, if_neg ht]
      exact Function.update_of_ne (Ne.symm ht) ..

/-- Each side makes a run of its own. -/
theorem side_go (joint : Joint X Y) (s : Side) (happenings : List (Happening X Y)) :
    (joint.go happenings).side s = (joint.side s).play (joint.movesOf s happenings) := by
  induction happenings using List.reverseRecOn with
  | nil => rfl
  | append_singleton happenings h ih =>
    rw [go_concat, side_happen, ih, movesOf_concat, Connection.play_append]

/-! ## The channels -/

omit [Capability X] [SubProtocol Y] in
/-- What came in to a side is what was carried to it of what the other one wrote. -/
structure Carries (joint : Joint X Y) (s : Side) (incoming : Bytes) : Prop where
  front : incoming <+: (joint.side s.other).transport.written
  length : incoming.length = joint.carried s

omit [Capability X] [SubProtocol Y] in
theorem Carries.append_onWay {joint : Joint X Y} {s : Side} {incoming : Bytes}
    (h : joint.Carries s incoming) :
    incoming ++ joint.onWay s = (joint.side s.other).transport.written := by
  obtain ⟨rest, hrest⟩ := h.front
  rw [onWay, ← h.length, ← hrest, List.drop_left]

theorem carried_happen (joint : Joint X Y) (s : Side) (h : Happening X Y) :
    (joint.happen h).carried s =
      joint.carried s + ((joint.movesIn s h).flatMap Move.incoming).length := by
  cases h with
  | move t m hm =>
    have hnothing : (joint.movesIn s (.move t m hm)).flatMap Move.incoming = [] := by
      rw [movesIn]
      split
      · simpa using hm
      · rfl
    rw [hnothing]
    rfl
  | carry t count =>
    by_cases ht : t = s
    · subst ht
      rw [movesIn, if_pos rfl, Move.incoming_arrivals]
      exact Function.update_self (β := fun _ => Nat) ..
    · rw [movesIn, if_neg ht]
      exact Function.update_of_ne (β := fun _ => Nat) (Ne.symm ht) ..

omit [Capability X] [SubProtocol Y] in
/-- Only what is on its way comes in. -/
theorem incoming_movesIn_prefix (joint : Joint X Y) (s : Side) (h : Happening X Y) :
    (joint.movesIn s h).flatMap Move.incoming <+: joint.onWay s := by
  cases h with
  | move t m hm =>
    rw [movesIn]
    split
    · simp [hm]
    · exact List.nil_prefix
  | carry t count =>
    rw [movesIn]
    split
    · rw [Move.incoming_arrivals]
      exact List.take_prefix count _
    · exact List.nil_prefix

theorem Carries.happen {joint : Joint X Y} {s : Side} {incoming : Bytes}
    (h : joint.Carries s incoming) (happening : Happening X Y) :
    (joint.happen happening).Carries s
      (incoming ++ (joint.movesIn s happening).flatMap Move.incoming) := by
  constructor
  · have hgrows : (joint.side s.other).transport.written <+:
        ((joint.happen happening).side s.other).transport.written := by
      rw [side_happen]
      exact (Connection.play_emits _ _).grows
    refine List.IsPrefix.trans ?_ hgrows
    rw [← h.append_onWay, List.prefix_append_right_inj]
    exact joint.incoming_movesIn_prefix s happening
  · rw [List.length_append, h.length, carried_happen]

theorem Carries.go {joint : Joint X Y} {s : Side} {incoming : Bytes}
    (h : joint.Carries s incoming) (happenings : List (Happening X Y)) :
    (joint.go happenings).Carries s
      (incoming ++ (joint.movesOf s happenings).flatMap Move.incoming) := by
  induction happenings using List.reverseRecOn with
  | nil =>
    rw [movesOf, List.flatMap_nil, List.append_nil]
    exact h
  | append_singleton happenings happening ih =>
    rw [go_concat, movesOf_concat, List.flatMap_append, ← List.append_assoc]
    exact ih.happen happening

/-- Two new connections over channels on which nothing happened yet. -/
def new (connected : Side → Bool) (config : Side → Config) (now : Nat) : Joint X Y where
  side s := .new (.new (connected s)) (config s) now
  carried _ := 0

/-- All that ever came in to a side, and what is still on its way, is what the other side
wrote. -/
theorem incoming_append_onWay (connected : Side → Bool) (config : Side → Config) (now : Nat)
    (happenings : List (Happening X Y)) (s : Side) :
    let start : Joint X Y := new connected config now
    (start.side s).incoming (start.movesOf s happenings) ++ (start.go happenings).onWay s =
      ((start.go happenings).side s.other).transport.written := by
  intro start
  have hstart : start.Carries s [] := ⟨List.nil_prefix, rfl⟩
  exact (hstart.go happenings).append_onWay

end Joint
end PeerLink
