import PeerLink.Bytes

/-!
# SHA-1

A digest of twenty bytes.  The message is padded to whole blocks of sixteen
words, and every block is mixed into a chain of five words by eighty rounds.
The schedule of a block is a window of sixteen words that slides by one each
round.
-/

namespace PeerLink

/-- Twenty bytes that stand for a longer text. -/
abbrev Digest := Vector UInt8 20

namespace Sha1

/-- The chain of five words. -/
structure Chain where
  a : UInt32
  b : UInt32
  c : UInt32
  d : UInt32
  e : UInt32
  deriving DecidableEq, Repr

/-- The chain before the first block. -/
def start : Chain := ⟨0x67452301, 0xEFCDAB89, 0x98BADCFE, 0x10325476, 0xC3D2E1F0⟩

/-- The word rotated left by `n` bits. -/
def rotate (word n : UInt32) : UInt32 := (word <<< n) ||| (word >>> (32 - n))

/-- How round `t` mixes three words of the chain, constant included. -/
def mix (t : Nat) (b c d : UInt32) : UInt32 :=
  if t < 20 then ((b &&& c) ||| (~~~b &&& d)) + 0x5A827999
  else if t < 40 then (b ^^^ c ^^^ d) + 0x6ED9EBA1
  else if t < 60 then ((b &&& c) ||| (b &&& d) ||| (c &&& d)) + 0x8F1BBCDC
  else (b ^^^ c ^^^ d) + 0xCA62C1D6

/-- One round with one word of the schedule. -/
def round (t : Nat) (word : UInt32) (h : Chain) : Chain :=
  ⟨rotate h.a 5 + mix t h.b h.c h.d + h.e + word, h.a, rotate h.b 30, h.c, h.d⟩

/-- The window moved on by one word of the schedule. -/
def slide : List UInt32 → List UInt32
  | w0 :: w1 :: w2 :: rest =>
    let next := rotate (rest[10]?.getD 0 ^^^ rest[5]?.getD 0 ^^^ w2 ^^^ w0) 1
    w1 :: w2 :: (rest ++ [next])
  | short => short

/-- The rounds from `t` on, as many as are left. -/
def rounds (t : Nat) : (left : Nat) → List UInt32 → Chain → Chain
  | left + 1, word :: window, h =>
    rounds (t + 1) left (slide (word :: window)) (round t word h)
  | _, _, h => h

/-- Mixes one block of sixteen words into the chain. -/
def compress (h : Chain) (block : List UInt32) : Chain :=
  let m := rounds 0 80 block h
  ⟨h.a + m.a, h.b + m.b, h.c + m.c, h.d + m.d, h.e + m.e⟩

/-- Mixes the words into the chain, block by block.  `block` holds the words of
the block that is not yet full. -/
def absorb (h : Chain) (block : List UInt32) : List UInt32 → Chain
  | [] => h
  | word :: words =>
    let block := block ++ [word]
    if block.length = 16 then absorb (compress h block) [] words
    else absorb h block words

/-- The words that the bytes spell. -/
def words : Bytes → List UInt32
  | a :: b :: c :: d :: rest => Bytes.word32 a b c d :: words rest
  | _ => []

/-- The message with a single bit, zeros up to a whole number of blocks, and
its length in bits. -/
def pad (message : Bytes) : Bytes :=
  let bits := message.length * 8
  message ++ 0x80 :: (List.replicate ((119 - message.length % 64) % 64) 0 ++
    (Bytes.ofUInt32 (UInt32.ofNat (bits / 4294967296)) ++ Bytes.ofUInt32 (UInt32.ofNat bits)))

/-- The bytes of the chain. -/
def Chain.toBytes (h : Chain) : Bytes :=
  Bytes.ofUInt32 h.a ++ (Bytes.ofUInt32 h.b ++ (Bytes.ofUInt32 h.c ++
    (Bytes.ofUInt32 h.d ++ Bytes.ofUInt32 h.e)))

/-- The SHA-1 digest of a message. -/
def digest (message : Bytes) : Digest :=
  ⟨(absorb start [] (words (pad message))).toBytes.toArray, rfl⟩

end Sha1
end PeerLink
