import PeerLink.Failure

/-!
# Transports

A transport is an ordered channel of bytes to one peer that never waits.  How
it behaves from some moment on is a value: what the coming reads, writes and
attempts to connect will answer.  Reading, writing and connecting consume those
answers, so that a run of a connection is a function of its transport.
-/

namespace PeerLink

/-- What a read answers. -/
inductive ReadAnswer where
  /-- Bytes arrived.  No bytes at all mean that the peer closed the channel. -/
  | data (chunk : Bytes)
  | fault (fault : TransportFault)
  deriving DecidableEq, Repr

/-- What a write answers. -/
inductive WriteAnswer where
  /-- At most this many bytes are accepted. -/
  | accept (count : Nat)
  | fault (fault : TransportFault)
  deriving DecidableEq, Repr

/-- A channel to one peer. -/
structure Transport where
  connected : Bool
  /-- What the coming reads answer.  Behind these, there is nothing to read. -/
  reads : List ReadAnswer
  /-- What the coming writes answer.  Behind these, all bytes are accepted. -/
  writes : List WriteAnswer
  /-- How the coming attempts to connect fail.  Behind these, they succeed. -/
  connects : List TransportFault
  /-- The bytes that were accepted and not collected yet. -/
  written : Bytes
  deriving DecidableEq, Repr

namespace Transport

/-- A transport on which nothing happened yet. -/
def new (connected : Bool) : Transport := ⟨connected, [], [], [], []⟩

/-- Ends the channel. -/
def close (transport : Transport) : Transport := { transport with connected := false }

/-- Attempts to open the channel. -/
def connect (transport : Transport) : Transport × Except Failure Unit :=
  match transport.connects with
  | fault :: connects => ({ transport with connects }, .error (.io fault))
  | [] => ({ transport with connected := true }, .ok ())

/-- What came in by reading until there is nothing more, or enough. -/
structure Arrival where
  /-- The answers that are left. -/
  reads : List ReadAnswer
  /-- All bytes that came in. -/
  data : Bytes
  /-- Why reading ended early, if it did. -/
  fault : Option Failure
  deriving DecidableEq, Repr

/-- Reads as long as there are answers and fewer than `limit` bytes came in, of
which there are `total` so far. -/
def readFrom (limit total : Nat) : List ReadAnswer → Arrival
  | [] => ⟨[], [], none⟩
  | answer :: rest =>
    if limit ≤ total then ⟨answer :: rest, [], none⟩
    else match answer with
      | .data [] => ⟨rest, [], some .connectionClosed⟩
      | .data chunk =>
        let later := readFrom limit (total + chunk.length) rest
        { later with data := chunk ++ later.data }
      | .fault .wouldBlock => ⟨rest, [], none⟩
      | .fault .interrupted => readFrom limit total rest
      | .fault fault => ⟨rest, [], some (.io fault)⟩

/-- Reads about `limit` bytes, if there are as many. -/
def read (transport : Transport) (limit : Nat) : Arrival := readFrom limit 0 transport.reads

/-- How far writing got. -/
structure Progress where
  /-- The answers that are left. -/
  writes : List WriteAnswer
  /-- The bytes that were accepted. -/
  accepted : Bytes
  /-- The frames that are left.  The first of them may be cut off at the front. -/
  pending : List Bytes
  /-- Why writing ended early, if it did. -/
  fault : Option Failure
  deriving DecidableEq, Repr

/-- Offers the bytes of one frame until all are accepted, the channel is full, or
it fails.  What is left of the frame is the only pending one. -/
def writeFrame (frame : Bytes) : List WriteAnswer → Progress
  | [] => if frame.isEmpty then ⟨[], [], [frame], some .connectionClosed⟩ else ⟨[], frame, [], none⟩
  | .fault .wouldBlock :: rest => ⟨rest, [], [frame], none⟩
  | .fault .interrupted :: rest => writeFrame frame rest
  | .fault fault :: rest => ⟨rest, [], [frame], some (.io fault)⟩
  | .accept count :: rest =>
    if min count frame.length = 0 then ⟨rest, [], [frame], some .connectionClosed⟩
    else if frame.length ≤ count then ⟨rest, frame, [], none⟩
    else
      let later := writeFrame (frame.drop count) rest
      { later with accepted := frame.take count ++ later.accepted }

/-- Offers frames in order, as far as the channel accepts them. -/
def writeAll (writes : List WriteAnswer) : List Bytes → Progress
  | [] => ⟨writes, [], [], none⟩
  | frame :: rest =>
    let first := writeFrame frame writes
    if first.pending.isEmpty then
      let later := writeAll first.writes rest
      { later with accepted := first.accepted ++ later.accepted }
    else { first with pending := first.pending ++ rest }

/-- Offers frames in order, as far as the channel accepts them. -/
def write (transport : Transport) (frames : List Bytes) : Progress :=
  writeAll transport.writes frames

/-- What the surroundings of a connection do to its transport. -/
inductive Stimulus where
  /-- The coming reads answer this too. -/
  | feed (answers : List ReadAnswer)
  /-- The coming writes answer this too. -/
  | planWrites (answers : List WriteAnswer)
  /-- One more attempt to connect fails. -/
  | failConnect (fault : TransportFault)
  | setConnected (connected : Bool)
  deriving DecidableEq, Repr

/-- The transport after something happened to it. -/
def stir (transport : Transport) : Stimulus → Transport
  | .feed answers => { transport with reads := transport.reads ++ answers }
  | .planWrites answers => { transport with writes := transport.writes ++ answers }
  | .failConnect fault => { transport with connects := transport.connects ++ [fault] }
  | .setConnected connected => { transport with connected }

end Transport
end PeerLink
