import PeerLink.Bytes

/-!
# Blocks

A piece is transferred in blocks.  A request names a byte range of a piece,
and a block carries the bytes of one.
-/

namespace PeerLink

/-- A byte range of a piece. -/
structure BlockRequest where
  index : UInt32
  begin : UInt32
  length : UInt32
  deriving DecidableEq, Repr

namespace BlockRequest

/-- The three words of a range, in wire order. -/
def encode (range : BlockRequest) : Bytes :=
  Bytes.ofUInt32 range.index ++ (Bytes.ofUInt32 range.begin ++ Bytes.ofUInt32 range.length)

/-- A range off the front.  What follows it is left out. -/
def decode? (bytes : Bytes) : Option BlockRequest := do
  let (index, bytes) ← Bytes.takeUInt32? bytes
  let (begin, bytes) ← Bytes.takeUInt32? bytes
  let (length, _) ← Bytes.takeUInt32? bytes
  return { index, begin, length }

/-- A written range reads back, whatever follows it. -/
@[simp]
theorem decode?_encode_append (range : BlockRequest) (rest : Bytes) :
    decode? (range.encode ++ rest) = some range := by
  simp [decode?, encode, List.append_assoc]

end BlockRequest

/-- Bytes of a piece, with the place they belong to. -/
structure Block where
  index : UInt32
  begin : UInt32
  data : Bytes
  deriving DecidableEq, Repr

namespace Block

/-- The range that the block fills. -/
def request (block : Block) : BlockRequest :=
  ⟨block.index, block.begin, UInt32.ofNat block.data.length⟩

/-- The place of a block, followed by its bytes. -/
def encode (block : Block) : Bytes :=
  Bytes.ofUInt32 block.index ++ (Bytes.ofUInt32 block.begin ++ block.data)

/-- The place of a block off the front.  All that follows is its bytes. -/
def decode? (bytes : Bytes) : Option Block := do
  let (index, bytes) ← Bytes.takeUInt32? bytes
  let (begin, data) ← Bytes.takeUInt32? bytes
  return { index, begin, data }

/-- A written block reads back. -/
@[simp]
theorem decode?_encode (block : Block) : decode? block.encode = some block := by
  simp [decode?, encode]

end Block
end PeerLink
