import PeerLink.Bencode.Dict

/-!
# Showing values to a reader

The form in which values appear in diagnostics: kinds by name, byte strings
quoted, entries in order.
-/

namespace PeerLink
namespace Bencode

mutual

/-- A value by kind and content. -/
def Value.display : Value → String
  | .int n => "Integer(" ++ n.toInt.repr ++ ")"
  | .bytes content => "Bytes(" ++ Quoted.bytes content ++ ")"
  | .list items => "List([" ++ displayItems items ++ "])"
  | .dict entries => "Dict(\x7b" ++ displayEntries entries ++ "\x7d)"

/-- Several values, separated by commas. -/
def displayItems : List Value → String
  | [] => ""
  | [v] => v.display
  | v :: vs => v.display ++ ", " ++ displayItems vs

/-- Entries, separated by commas, each key before a colon and its value. -/
def displayEntries : List (Bytes × Value) → String
  | [] => ""
  | [(key, v)] => Quoted.bytes key ++ ": " ++ v.display
  | (key, v) :: rest => Quoted.bytes key ++ ": " ++ v.display ++ ", " ++ displayEntries rest

end

/-- A dictionary's own form: its entries between braces. -/
def Dict.display (d : Dict) : String :=
  "\x7b" ++ displayEntries d.toList ++ "\x7d"

end Bencode
end PeerLink
