import PeerLink.Connection.Basic

/-!
# Opening a connection

Either side may speak first.  Our handshake is queued by `Connection.handshake`,
and the peer's is accepted by `Connection.acceptHandshake`; whichever comes
second compares the info hashes.
-/

namespace PeerLink

/-- The info hash that 40 hexadecimal digits spell.  Lengths and positions count
the bytes of the text. -/
def Digest.parse (text : String) : Except Failure Digest :=
  let digits := Bytes.ofText text
  if hlen : digits.length = 40 then
    match h : Hex.decode digits with
    | .error bad => .error (.invalidArgument (.infoHashDigit bad))
    | .ok bytes => .ok ⟨bytes.toArray, by
        have := Hex.length_of_decode h
        simp only [List.size_toArray]
        omega⟩
  else .error (.invalidArgument (.infoHashLength digits.length))

namespace Connection

variable {X Y : Type} [Capability X] [SubProtocol Y]

/-- What is wrong with the arguments or the moment of `handshake`, if anything:
first the arguments, then the phase. -/
def handshakeArguments (c : Connection X Y) (infoHash : String) (peerId : Bytes) :
    Except Failure (Digest × PeerId) := do
  let infoHash ← Digest.parse infoHash
  let peerId ← PeerId.ofBytes peerId
  if c.isDown then .error .connectionClosed
  else if c.state.handshakeSent then .error (.invalidArgument .handshakeSent)
  else .ok (infoHash, peerId)

/-- Queues our handshake, notes it, and lets every module add what it has to say
first.  A module that fails takes the connection down. -/
def queueHandshake (c : Connection X Y) (infoHash : Digest) (peerId : PeerId) :
    Connection X Y × Except Failure Unit :=
  let handshake : Handshake := ⟨Capability.reserved c.modules, infoHash, peerId⟩
  let state := ConnectionState.advancePhase { c.state with
    infoHash := some infoHash
    localPeerId := some peerId
    reserved := handshake.reserved
    handshakeSent := true }
  let c := { c with state, outbox := c.outbox.pushBytes handshake.encode }
  let reply := Reply.each (fun m => Capability.onHandshake m state handshake) c.modules
  let c := c.settle reply
  match reply.result with
  | .ok () => (c, .ok ())
  | .error failure => (c.teardown, .error failure)

/-- Opens our side with a handshake.  Bad arguments change nothing; another info
hash than the peer's takes the connection down. -/
def handshake (c : Connection X Y) (infoHash : String) (peerId : Bytes) :
    Connection X Y × Except Failure Unit :=
  match c.handshakeArguments infoHash peerId with
  | .error failure => (c, .error failure)
  | .ok (infoHash, peerId) =>
    if c.remoteInfoHash.any (· != infoHash) then (c.teardown, .error .infoHashMismatch)
    else c.queueHandshake infoHash peerId

/-- Notes the peer's handshake and tells about it.  Another info hash than ours is
refused. -/
def acceptHandshake (c : Connection X Y) (handshake : Handshake) :
    Connection X Y × Option Failure :=
  if c.state.infoHash.any (· != handshake.infoHash) then (c, some .infoHashMismatch)
  else
    let state := ConnectionState.advancePhase { c.state with
      remotePeerId := some handshake.peerId
      remoteReserved := some handshake.reserved
      handshakeReceived := true }
    ({ c with
      remoteInfoHash := some handshake.infoHash
      state
      outbox := c.outbox.pushEvent (.handshakeComplete handshake.peerId handshake.reserved) },
      none)

end Connection
end PeerLink
