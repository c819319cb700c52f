import PeerLink.Bencode.Dict
import PeerLink.Text.Decimal

/-!
# Reading bencode

A reader takes one item off the front of the input and proves that what it
leaves is shorter, which is why the loops over list items and dictionary
entries end.  Nesting is bounded by a count of levels, so reading recurses on
that count alone.

`Value.read` reads one value and leaves what follows it, `decode` insists that
nothing follows, and `decodePrefix` says how many bytes the value occupied.
-/

namespace PeerLink
namespace Bencode

/-- What is left of `input` after something was taken off its front. -/
abbrev Shorter (input : Bytes) := { rest : Bytes // rest.length < input.length }

/-- Takes one item off the front of the input. -/
abbrev Reader (α : Type) := (input : Bytes) → Except Error (α × Shorter input)

/-- Containers nest at most this many levels deep: the outermost value is at
level zero and a value at level 64 is still read. -/
def maxDepth : Nat := 64

theorem length_dropWhile_le (p : UInt8 → Bool) (input : Bytes) :
    (input.dropWhile p).length ≤ input.length :=
  (List.dropWhile_suffix p).length_le

/-- The integer that the text between the marks of an integer spells. -/
def integerOfText (text : Bytes) : Except Error Int64 :=
  let negative := text.head? = some 45
  let digits := if negative then text.tail else text
  if digits.isEmpty || !digits.all Decimal.isDigit then .error (.invalidInteger text)
  else if digits.head? = some 48 && (negative || 1 < digits.length) then .error .leadingZeros
  else
    let magnitude := Decimal.value digits
    let n : Int := if negative then -magnitude else magnitude
    if IntegerType.full.holds n then .ok (Int64.ofInt n) else .error (.invalidInteger text)

/-- The rest of an integer, behind its opening mark. -/
def readInteger : Reader Int64 := fun input =>
  match h : input.dropWhile (· != 101) with
  | [] => .error .unexpectedEof
  | _ :: rest =>
    match integerOfText (input.takeWhile (· != 101)) with
    | .error e => .error e
    | .ok n => .ok (n, ⟨rest, by
        have hle := length_dropWhile_le (· != 101) input
        rw [h, List.length_cons] at hle
        exact hle⟩)

/-- A byte string: a decimal length, a colon, and that many bytes.  Zeros in
front of the length are allowed. -/
def readBytes : Reader Bytes := fun input =>
  match h : input.dropWhile Decimal.isDigit with
  | [] => .error .unexpectedEof
  | byte :: rest =>
    let digits := input.takeWhile Decimal.isDigit
    if byte != 58 || digits.isEmpty then .error .invalidStringLength
    else
      let length := Decimal.value digits
      if UInt64.size ≤ length then .error .invalidStringLength
      else match hs : Bytes.splitAt? length rest with
        | none => .error .unexpectedEof
        | some (content, left) => .ok (content, ⟨left, by
            have hle := length_dropWhile_le Decimal.isDigit input
            rw [h, List.length_cons] at hle
            rw [Bytes.splitAt?_eq_some_iff] at hs
            have := congrArg List.length hs.2
            simp only [List.length_append] at this
            omega⟩)

/-- Items up to the closing mark.  `done` holds the items read so far, latest
first. -/
def readItems (item : Reader Value) (outer : Bytes) (done : List Value) :
    (input : Bytes) → input.length < outer.length →
      Except Error (List Value × Shorter outer)
  | [], _ => .error .unexpectedEof
  | byte :: rest, h =>
    if byte = 101 then
      .ok (done.reverse, ⟨rest, by simp only [List.length_cons] at h; omega⟩)
    else match item (byte :: rest) with
      | .error e => .error e
      | .ok (v, ⟨left, hleft⟩) =>
        readItems item outer (v :: done) left (Nat.lt_trans hleft h)
termination_by input => input.length
decreasing_by exact hleft

/-- Entries up to the closing mark, appended to those already in `done`.  A key
that is there already is refused before its value is read. -/
def readEntries (item : Reader Value) (outer : Bytes) (done : Dict) :
    (input : Bytes) → input.length < outer.length →
      Except Error (Entries × Shorter outer)
  | [], _ => .error .unexpectedEof
  | byte :: rest, h =>
    if byte = 101 then
      .ok (done.toList, ⟨rest, by simp only [List.length_cons] at h; omega⟩)
    else if !Decimal.isDigit byte then .error (.unexpectedByte byte)
    else match readBytes (byte :: rest) with
      | .error e => .error e
      | .ok (key, ⟨afterKey, hkey⟩) =>
        if done.contains key then .error (.duplicateKey key)
        else match item afterKey with
          | .error e => .error e
          | .ok (v, ⟨left, hleft⟩) =>
            readEntries item outer (done.push key v) left
              (Nat.lt_trans (Nat.lt_trans hleft hkey) h)
termination_by input => input.length
decreasing_by exact Nat.lt_trans hleft hkey

/-- One value, whose containers nest less than `levels` deep. -/
def readValue : (levels : Nat) → Reader Value
  | 0, _ => .error .nestingTooDeep
  | _ + 1, [] => .error .unexpectedEof
  | levels + 1, byte :: rest =>
    if byte = 105 then
      match readInteger rest with
      | .error e => .error e
      | .ok (n, ⟨left, h⟩) => .ok (.int n, ⟨left, Nat.lt_succ_of_lt h⟩)
    else if byte = 108 then
      match readItems (readValue levels) (byte :: rest) [] rest (Nat.lt_succ_self _) with
      | .error e => .error e
      | .ok (items, left) => .ok (.list items, left)
    else if byte = 100 then
      match readEntries (readValue levels) (byte :: rest) ∅ rest (Nat.lt_succ_self _) with
      | .error e => .error e
      | .ok (entries, left) => .ok (.dict entries, left)
    else if Decimal.isDigit byte then
      match readBytes (byte :: rest) with
      | .error e => .error e
      | .ok (content, left) => .ok (.bytes content, left)
    else .error (.unexpectedByte byte)

/-- Reads one value off the front of the input and leaves what follows it. -/
def Value.read (input : Bytes) : Except Error (Value × Bytes) :=
  match readValue (maxDepth + 1) input with
  | .error e => .error e
  | .ok (v, ⟨rest, _⟩) => .ok (v, rest)

/-- Reads one value off the front of the input, and the number of bytes it
occupied. -/
def decodePrefix (input : Bytes) : Except Error (Value × Nat) :=
  match Value.read input with
  | .error e => .error e
  | .ok (v, rest) => .ok (v, input.length - rest.length)

/-- Reads the one value that spans the whole input. -/
def decode (input : Bytes) : Except Error Value :=
  match Value.read input with
  | .error e => .error e
  | .ok (v, []) => .ok v
  | .ok (_, _ :: _) => .error .trailingData

end Bencode
end PeerLink
