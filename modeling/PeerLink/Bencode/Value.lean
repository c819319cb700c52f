import PeerLink.Bencode.Error

/-!
# Bencode values

The four kinds of bencoded data, equality on them, and the views that take a
value for one of its kinds.  A dictionary is the list of its entries in the
order they were read or inserted.
-/

namespace PeerLink
namespace Bencode

/-- A bencoded value.  Byte strings need not be text, and a dictionary keeps
its entries in order. -/
inductive Value where
  | int (n : Int64)
  | bytes (content : Bytes)
  | list (items : List Value)
  | dict (entries : List (Bytes × Value))
  deriving Repr, Inhabited

/-- The key and value pairs of a dictionary, in order. -/
abbrev Entries := List (Bytes × Value)

namespace Value

mutual

/-- Whether two values are the same, entry order included. -/
def same : Value → Value → Bool
  | .int m, .int n => m == n
  | .bytes s, .bytes t => s == t
  | .list vs, .list ws => sameItems vs ws
  | .dict ds, .dict es => sameEntries ds es
  | _, _ => false

/-- Whether two lists hold the same values in the same order. -/
def sameItems : List Value → List Value → Bool
  | [], [] => true
  | v :: vs, w :: ws => v.same w && sameItems vs ws
  | _, _ => false

/-- Whether two dictionaries hold the same entries in the same order. -/
def sameEntries : List (Bytes × Value) → List (Bytes × Value) → Bool
  | [], [] => true
  | (k, v) :: ds, (l, w) :: es => k == l && v.same w && sameEntries ds es
  | _, _ => false

end

mutual

theorem same_iff : ∀ v w : Value, v.same w = true ↔ v = w
  | .int m, .int n => by simp [same]
  | .bytes s, .bytes t => by simp [same]
  | .list vs, .list ws => by simp [same, sameItems_iff vs ws]
  | .dict ds, .dict es => by simp [same, sameEntries_iff ds es]
  | .int _, .bytes _ | .int _, .list _ | .int _, .dict _ => by simp [same]
  | .bytes _, .int _ | .bytes _, .list _ | .bytes _, .dict _ => by simp [same]
  | .list _, .int _ | .list _, .bytes _ | .list _, .dict _ => by simp [same]
  | .dict _, .int _ | .dict _, .bytes _ | .dict _, .list _ => by simp [same]

theorem sameItems_iff : ∀ vs ws : List Value, sameItems vs ws = true ↔ vs = ws
  | [], [] => by simp [sameItems]
  | v :: vs, w :: ws => by simp [sameItems, same_iff v w, sameItems_iff vs ws]
  | [], _ :: _ => by simp [sameItems]
  | _ :: _, [] => by simp [sameItems]

theorem sameEntries_iff :
    ∀ ds es : List (Bytes × Value), sameEntries ds es = true ↔ ds = es
  | [], [] => by simp [sameEntries]
  | (k, v) :: ds, (l, w) :: es => by
    simp [sameEntries, same_iff v w, sameEntries_iff ds es, and_assoc]
  | [], _ :: _ => by simp [sameEntries]
  | _ :: _, [] => by simp [sameEntries]

end

instance : DecidableEq Value := fun v w => decidable_of_iff _ (same_iff v w)

/-- The byte string that spells a text. -/
def text (content : String) : Value := .bytes (Bytes.ofText content)

/-- The value as an integer, if it is one. -/
def int? : Value → Option Int64
  | .int n => some n
  | _ => none

/-- The value as a byte string, if it is one. -/
def bytes? : Value → Option Bytes
  | .bytes content => some content
  | _ => none

/-- The value as text, if it is a byte string of well-formed UTF-8. -/
def text? (v : Value) : Option String := v.bytes?.bind Bytes.toText?

/-- The value as a list, if it is one. -/
def list? : Value → Option (List Value)
  | .list items => some items
  | _ => none

/-- The value as a dictionary, if it is one. -/
def dict? : Value → Option Entries
  | .dict entries => some entries
  | _ => none

/-- What a dictionary holds under `key`.  Other values hold nothing. -/
def get? (v : Value) (key : Bytes) : Option Value := v.dict?.bind (·.lookup key)

/-- The value as an integer of a native type.  A value that does not fit is
refused and not truncated. -/
def narrow (type : IntegerType) : Value → Except Error Int64
  | .int n => if type.holds n.toInt then .ok n else .error (.integerOutOfRange n type)
  | _ => .error .notAnInteger

/-- The value as a byte. -/
def toUInt8 (v : Value) : Except Error UInt8 :=
  (v.narrow .byte).map fun n => UInt8.ofNat n.toInt.toNat

/-- The value as a word of 32 bits. -/
def toUInt32 (v : Value) : Except Error UInt32 :=
  (v.narrow .word).map fun n => UInt32.ofNat n.toInt.toNat

end Value

/-- What an entry list holds under `key`: the first entry with that key. -/
def Entries.get? (entries : Entries) (key : String) : Option Value :=
  entries.lookup (Bytes.ofText key)

end Bencode
end PeerLink
