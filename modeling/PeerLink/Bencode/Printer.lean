import PeerLink.Bencode.Value
import PeerLink.Text.Decimal

/-!
# Writing bencode

Every value has exactly one written form.  Dictionary entries are written in
the order they are stored.
-/

namespace PeerLink
namespace Bencode

/-- The written form of a byte string: its length, a colon, its bytes. -/
def encodeBytes (content : Bytes) : Bytes :=
  Decimal.digits content.length ++ 58 :: content

mutual

/-- The written form of a value. -/
def Value.encode : Value → Bytes
  | .int n => 105 :: (Decimal.ofInt n.toInt ++ [101])
  | .bytes content => encodeBytes content
  | .list items => 108 :: (encodeItems items ++ [101])
  | .dict entries => 100 :: (encodeEntries entries ++ [101])

/-- The written forms of several values, one after another. -/
def encodeItems : List Value → Bytes
  | [] => []
  | v :: vs => v.encode ++ encodeItems vs

/-- The written forms of entries, each key before its value. -/
def encodeEntries : List (Bytes × Value) → Bytes
  | [] => []
  | (key, v) :: rest => encodeBytes key ++ (v.encode ++ encodeEntries rest)

end

end Bencode
end PeerLink
