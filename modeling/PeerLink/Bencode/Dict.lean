import PeerLink.Bencode.Value
import Std.Data.ExtTreeMap

/-!
# Dictionaries under construction

A `Dict` keeps entries in insertion order next to an index from each key to
its position, so that a key is looked up without a walk over the entries.
`Dict.WellIndexed` says that the two parts agree: keys are pairwise distinct
and the index maps exactly the keys to their positions.
-/

namespace PeerLink
namespace Bencode

/-- Entries in insertion order, with the position of every key. -/
structure Dict where
  /-- The entries, oldest first. -/
  entries : Array (Bytes × Value)
  /-- Where the entry of a key stands. -/
  index : Std.ExtTreeMap Bytes Nat

namespace Dict

/-- The entries and the index agree: every entry is found at its own position
through its key, and the index knows no other key. -/
structure WellIndexed (d : Dict) : Prop where
  /-- No key occurs twice. -/
  nodup : (d.entries.toList.map Prod.fst).Nodup
  /-- A key is indexed at the position of its entry. -/
  index_eq : ∀ key, d.index[key]? = (d.entries.toList.map Prod.fst).idxOf? key

/-- The dictionary without entries. -/
def empty : Dict := ⟨#[], ∅⟩

instance : EmptyCollection Dict := ⟨empty⟩
instance : Inhabited Dict := ⟨empty⟩

/-- The entries in order, as a bencoded dictionary holds them. -/
def toList (d : Dict) : Entries := d.entries.toList

/-- The number of entries. -/
def size (d : Dict) : Nat := d.entries.size

/-- Whether there are no entries. -/
def isEmpty (d : Dict) : Bool := d.entries.isEmpty

/-- The keys in order. -/
def keys (d : Dict) : List Bytes := d.toList.map Prod.fst

/-- What is stored under `key`. -/
def get? (d : Dict) (key : Bytes) : Option Value :=
  d.index[key]?.bind fun position => d.entries[position]?.map Prod.snd

/-- Whether there is an entry for `key`. -/
def contains (d : Dict) (key : Bytes) : Bool := d.index.contains key

/-- Appends an entry.  The key must not be present. -/
def push (d : Dict) (key : Bytes) (value : Value) : Dict :=
  ⟨d.entries.push (key, value), d.index.insert key d.entries.size⟩

/-- Stores a value, in place if the key is present and at the end otherwise. -/
def insert (d : Dict) (key : Bytes) (value : Value) : Dict :=
  match d.index[key]? with
  | some position => { d with entries := d.entries.modify position fun e => (e.1, value) }
  | none => d.push key value

/-- Stores a value, and gives back the one that it replaces. -/
def replace (d : Dict) (key : Bytes) (value : Value) : Option Value × Dict :=
  (d.get? key, d.insert key value)

/-- Removes the entry of a key.  The other entries keep their order, and those behind it
move up by one. -/
def erase (d : Dict) (key : Bytes) : Dict :=
  match d.index[key]? with
  | none => d
  | some position =>
    let entries := d.entries.eraseIdxIfInBounds position
    let behind := entries.toList.drop position
    { entries
      index := behind.foldl (fun index e => index.modify e.1 (· - 1)) (d.index.erase key) }

/-- Removes the entry of a key, and gives back its value. -/
def remove (d : Dict) (key : Bytes) : Option Value × Dict := (d.get? key, d.erase key)

/-- Builds a dictionary by inserting entries in order. -/
def ofList (entries : Entries) : Dict :=
  entries.foldl (fun d e => d.insert e.1 e.2) empty

/-- Stores a value under a textual key, if there is a value. -/
def insertSome (d : Dict) (key : String) (value? : Option Value) : Dict :=
  match value? with
  | some value => d.insert (Bytes.ofText key) value
  | none => d

end Dict
end Bencode
end PeerLink
