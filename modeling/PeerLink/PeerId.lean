import PeerLink.Failure

/-!
# Peer ids

Twenty bytes by which a peer calls itself.  Many clients begin theirs with
their name and version between hyphens.
-/

namespace PeerLink

/-- The twenty bytes by which a peer calls itself. -/
structure PeerId where
  bytes : Vector UInt8 20
  deriving DecidableEq, Repr

namespace PeerId

/-- The bytes as a peer id, which has exactly twenty. -/
def ofBytes (bytes : Bytes) : Except Failure PeerId :=
  match Bytes.toVector? 20 bytes with
  | some id => .ok ⟨id⟩
  | none => .error (.invalidArgument (.peerIdLength bytes.length))

/-- The beginning of the ids that this library makes up. -/
def clientMark : Vector UInt8 8 := #v[45, 80, 87, 48, 48, 48, 49, 45]

/-- An id of this library, told from others by its last twelve bytes. -/
def make (tail : Vector UInt8 12) : PeerId := ⟨clientMark ++ tail⟩

/-- The six characters between the hyphens, if the id begins that way and they
are text. -/
def client? (id : PeerId) : Option String :=
  if id.bytes[0] = 45 ∧ id.bytes[7] = 45 then
    Bytes.toText? ((id.bytes.toList.drop 1).take 6)
  else none

/-- Whether a byte is an ASCII letter, an ASCII digit or a hyphen. -/
def isPlain (byte : UInt8) : Bool :=
  (48 ≤ byte && byte ≤ 57) || (65 ≤ byte && byte ≤ 90) || (97 ≤ byte && byte ≤ 122) ||
    byte == 45

/-- The id with all but letters, digits and hyphens written as a percent sign
and two hexadecimal digits. -/
def escaped (id : PeerId) : String :=
  id.bytes.toList.foldl (fun shown byte =>
    if isPlain byte then shown.push (Char.ofNat byte.toNat)
    else shown ++ "%" ++ Hex.encode [byte]) ""

/-- The client of the id if it names one, and its first eight bytes otherwise. -/
def summary (id : PeerId) : String :=
  match id.client? with
  | some client => "PeerId(" ++ client ++ ")"
  | none => "PeerId(" ++ Hex.encode (id.bytes.toList.take 8) ++ ")"

end PeerId
end PeerLink
