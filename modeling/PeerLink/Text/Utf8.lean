import PeerLink.Bytes

/-!
# Reading bytes as text, whatever they are

`Utf8.scan` reads a byte string as UTF-8 and keeps going where it is ill
formed: each maximal ill-formed part, in the sense of the Unicode standard's
table of well-formed byte sequences, counts as one unreadable character.
`Utf8.lossy` shows those as the replacement character.
-/

namespace PeerLink
namespace Utf8

/-- What a lead byte announces: its payload bits, how many continuation bytes
follow, and the range that the first of them has to lie in. -/
structure Lead where
  bits : Nat
  following : Nat
  low : UInt8
  high : UInt8

/-- The lead bytes of sequences of two to four bytes. -/
def lead? (byte : UInt8) : Option Lead :=
  if byte < 0xC2 then none
  else if byte < 0xE0 then some ⟨byte.toNat - 0xC0, 1, 0x80, 0xBF⟩
  else if byte = 0xE0 then some ⟨0, 2, 0xA0, 0xBF⟩
  else if byte = 0xED then some ⟨13, 2, 0x80, 0x9F⟩
  else if byte < 0xF0 then some ⟨byte.toNat - 0xE0, 2, 0x80, 0xBF⟩
  else if byte = 0xF0 then some ⟨0, 3, 0x90, 0xBF⟩
  else if byte < 0xF4 then some ⟨byte.toNat - 0xF0, 3, 0x80, 0xBF⟩
  else if byte = 0xF4 then some ⟨4, 3, 0x80, 0x8F⟩
  else none

/-- Reads up to `count` continuation bytes, the first of them between `low` and
`high`.  Answers the character once all are read and nothing when one is
missing, along with the bytes that were not taken. -/
def continuation (low high : UInt8) (bits : Nat) :
    (count : Nat) → (bytes : Bytes) →
      Option Char × { rest : Bytes // rest.length ≤ bytes.length }
  | 0, bytes => (some (Char.ofNat bits), ⟨bytes, Nat.le_refl _⟩)
  | _ + 1, [] => (none, ⟨[], Nat.le_refl _⟩)
  | count + 1, byte :: rest =>
    if low ≤ byte ∧ byte ≤ high then
      let (char?, ⟨left, hle⟩) :=
        continuation 0x80 0xBF (bits * 64 + (byte.toNat - 0x80)) count rest
      (char?, ⟨left, Nat.le_succ_of_le hle⟩)
    else
      (none, ⟨byte :: rest, Nat.le_refl _⟩)

/-- The characters that the bytes spell, in order, with `none` for each maximal
ill-formed part.  `done` holds the characters read so far, latest first. -/
def scanOnto (done : List (Option Char)) : Bytes → List (Option Char)
  | [] => done.reverse
  | byte :: rest =>
    if byte < 0x80 then scanOnto (some (Char.ofNat byte.toNat) :: done) rest
    else match lead? byte with
      | none => scanOnto (none :: done) rest
      | some lead =>
        let (char?, ⟨left, _⟩) :=
          continuation lead.low lead.high lead.bits lead.following rest
        scanOnto (char? :: done) left
termination_by bytes => bytes.length
decreasing_by
  all_goals simp only [List.length_cons]
  all_goals omega

/-- The characters that the bytes spell, with `none` for each maximal
ill-formed part. -/
def scan (bytes : Bytes) : List (Option Char) := scanOnto [] bytes

/-- The bytes as text, each maximal ill-formed part shown as one replacement
character. -/
def lossy (bytes : Bytes) : String :=
  String.ofList ((scan bytes).map fun char? => char?.getD '\ufffd')

end Utf8
end PeerLink
