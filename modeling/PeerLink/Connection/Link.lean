import PeerLink.Connection.Process

/-!
# Links

Two connections that are each other's peer make a link.  What one of them
writes is what the other one reads.
-/

namespace PeerLink

/-- Two connections that are each other's peer. -/
structure Link (X Y : Type) where
  near : Connection X Y
  far : Connection X Y

/-- Lets bytes arrive at a connection.  No bytes at all are not an arrival. -/
def Connection.deliver {X Y : Type} (c : Connection X Y) (bytes : Bytes) : Connection X Y :=
  if bytes.isEmpty then c else c.stir (.feed [.data bytes])

namespace Link

variable {X Y : Type} [Capability X] [SubProtocol Y]

/-- Both sides work for a round, and then what they wrote changes sides. -/
def round (link : Link X Y) (now : Nat) : Link X Y :=
  let (near, toFar) := (link.near.process now).1.collectWritten
  let (far, toNear) := (link.far.process now).1.collectWritten
  ⟨near.deliver toNear, far.deliver toFar⟩

/-- Both sides work for some rounds. -/
def rounds (link : Link X Y) (now : Nat) : Nat → Link X Y
  | 0 => link
  | count + 1 => (link.round now).rounds now count

end Link
end PeerLink
