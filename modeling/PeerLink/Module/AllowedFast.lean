import PeerLink.Address
import PeerLink.Sha1

/-!
# The allowed fast set

The pieces that a peer may download while choked depend only on its address
and the info hash, so both sides can compute them.  A chain of digests starts
from the masked address and the info hash; its words, taken modulo the number
of pieces, give the set in order of first occurrence.
-/

namespace PeerLink
namespace AllowedFast

/-- The part of an address that counts: the network of an IPv4 host, and the
first four octets of an IPv6 host. -/
def network : Host → Bytes
  | .v4 octets => octets.toList.take 3 ++ [0]
  | .v6 octets => octets.toList.take 4

/-- Adds pieces that are not chosen yet, until there are `size`. -/
def choose (size : Nat) (chosen : List UInt32) : List UInt32 → List UInt32
  | [] => chosen
  | piece :: rest =>
    if size ≤ chosen.length then chosen
    else if chosen.contains piece then choose size chosen rest
    else choose size (chosen ++ [piece]) rest

/-- Chooses from the words of the chain of digests that starts with that of
`text`, until `size` pieces are chosen or `steps` digests are used up. -/
def chooseFromChain (hash : Bytes → Digest) (pieceCount : UInt32) (size : Nat) :
    (steps : Nat) → (text : Bytes) → (chosen : List UInt32) → List UInt32
  | 0, _, chosen => chosen
  | steps + 1, text, chosen =>
    if size ≤ chosen.length then chosen
    else
      let digest := (hash text).toList
      let pieces := (Sha1.words digest).map (· % pieceCount)
      chooseFromChain hash pieceCount size steps digest (choose size chosen pieces)

/-- More digests than there are different ones.  A chain that was followed this
far has begun to repeat itself. -/
def chainLength : Nat := 1 <<< 160 + 1

/-- The allowed fast set under a hash function. -/
def generateWith (hash : Bytes → Digest) (infoHash : Digest) (host : Host)
    (pieceCount : UInt32) (size : Nat) : List UInt32 :=
  chooseFromChain hash pieceCount (min size pieceCount.toNat) chainLength
    (network host ++ infoHash.toList) []

/-- The allowed fast set: at most `size` different pieces of `pieceCount`. -/
def generate (infoHash : Digest) (host : Host) (pieceCount : UInt32) (size : Nat) :
    List UInt32 :=
  generateWith Sha1.digest infoHash host pieceCount size

end AllowedFast
end PeerLink
