import PeerLink.Bencode.Printer
import PeerLink.Proofs.Decimal

/-!
# The grammar of bencode

`Spells P v text` says that `text` is a spelling of the value `v`.  Integers have
one spelling.  The length in front of a byte string is any run of digits that
spells it, as far as the run satisfies `P`: with `AnyLength` the relation is the
whole grammar, and with `Decimal.IsShortest` it leaves out the spellings with a
zero in front of a length.

The main statement is `spells_isShortest_iff`: a value that can be written at
all has exactly one spelling without such zeros, and that is its written form.
-/

namespace PeerLink
namespace Bencode

/-! ## How deep values nest -/

mutual

/-- How many containers stand around the innermost contents of a value.  An
empty container holds nothing, so it has height zero. -/
def Value.height : Value → Nat
  | .int _ | .bytes _ => 0
  | .list items => itemsHeight items
  | .dict entries => entriesHeight entries

/-- One more than the greatest height among some values, and zero if there are
none. -/
def itemsHeight : List Value → Nat
  | [] => 0
  | v :: vs => max (v.height + 1) (itemsHeight vs)

/-- One more than the greatest height among the values of some entries, and zero
if there are none. -/
def entriesHeight : List (Bytes × Value) → Nat
  | [] => 0
  | (_, v) :: rest => max (v.height + 1) (entriesHeight rest)

end

theorem entriesHeight_le_iff {entries : List (Bytes × Value)} {n : Nat} :
    entriesHeight entries ≤ n ↔ ∀ entry ∈ entries, entry.2.height < n := by
  induction entries with
  | nil => simp [entriesHeight]
  | cons entry rest ih =>
    rw [entriesHeight, Nat.max_le, ih, List.forall_mem_cons]
    rfl

/-! ## Values that have a spelling -/

mutual

/-- Byte strings have a length of 64 bits, and no dictionary has a key twice, on
any level. -/
def Value.IsWritable : Value → Prop
  | .int _ => True
  | .bytes content => content.length < UInt64.size
  | .list items => ItemsWritable items
  | .dict entries => (entries.map Prod.fst).Nodup ∧ EntriesWritable entries

/-- All of some values are writable. -/
def ItemsWritable : List Value → Prop
  | [] => True
  | v :: vs => v.IsWritable ∧ ItemsWritable vs

/-- All keys and values of some entries are writable. -/
def EntriesWritable : List (Bytes × Value) → Prop
  | [] => True
  | (key, v) :: rest => key.length < UInt64.size ∧ v.IsWritable ∧ EntriesWritable rest

end

theorem entriesWritable_iff {entries : List (Bytes × Value)} :
    EntriesWritable entries ↔
      ∀ entry ∈ entries, entry.1.length < UInt64.size ∧ entry.2.IsWritable := by
  induction entries with
  | nil => simp [EntriesWritable]
  | cons entry rest ih =>
    rw [EntriesWritable, ih, List.forall_mem_cons, and_assoc]

/-! ## Spellings -/

/-- The decimal text of an integer: the shortest run of digits, behind a minus
sign if the integer is negative. -/
inductive SpellsInteger : Bytes → Int → Prop where
  | nonneg {run : Bytes} (hrun : Decimal.IsRun run) (hshort : Decimal.IsShortest run) :
      SpellsInteger run (Decimal.value run)
  | neg {run : Bytes} (hrun : Decimal.IsRun run) (hshort : Decimal.IsShortest run)
      (hpos : 0 < Decimal.value run) : SpellsInteger (45 :: run) (-(Decimal.value run : Int))

/-- Every run of digits may stand in front of a byte string. -/
def AnyLength : Bytes → Prop := fun _ => True

variable {P : Bytes → Prop}

/-- A byte string: a run of digits that spells its length, a colon, and the bytes
themselves. -/
inductive SpellsBytes (P : Bytes → Prop) : Bytes → Bytes → Prop where
  | mk {run content : Bytes} (hrun : Decimal.IsRun run) (hP : P run)
      (hvalue : Decimal.value run = content.length) (hsize : content.length < UInt64.size) :
      SpellsBytes P content (run ++ 58 :: content)

mutual

/-- The spellings of a value. -/
inductive Spells (P : Bytes → Prop) : Value → Bytes → Prop where
  | int {n : Int64} {text : Bytes} (h : SpellsInteger text n.toInt) :
      Spells P (.int n) (105 :: (text ++ [101]))
  | bytes {content text : Bytes} (h : SpellsBytes P content text) :
      Spells P (.bytes content) text
  | list {items : List Value} {text : Bytes} (h : SpellsItems P items text) :
      Spells P (.list items) (108 :: (text ++ [101]))
  | dict {entries : List (Bytes × Value)} {text : Bytes}
      (hkeys : (entries.map Prod.fst).Nodup) (h : SpellsEntries P entries text) :
      Spells P (.dict entries) (100 :: (text ++ [101]))

/-- The spellings of several values, one after another. -/
inductive SpellsItems (P : Bytes → Prop) : List Value → Bytes → Prop where
  | nil : SpellsItems P [] []
  | cons {v : Value} {vs : List Value} {text rest : Bytes} (h : Spells P v text)
      (hrest : SpellsItems P vs rest) : SpellsItems P (v :: vs) (text ++ rest)

/-- The spellings of entries, each key before its value. -/
inductive SpellsEntries (P : Bytes → Prop) : List (Bytes × Value) → Bytes → Prop where
  | nil : SpellsEntries P [] []
  | cons {key : Bytes} {v : Value} {entries : List (Bytes × Value)} {keyText text rest : Bytes}
      (hkey : SpellsBytes P key keyText) (h : Spells P v text)
      (hrest : SpellsEntries P entries rest) :
      SpellsEntries P ((key, v) :: entries) (keyText ++ (text ++ rest))

end

/-! ## The written form is a spelling -/

/-- An integer is written as its only decimal text. -/
theorem spellsInteger_iff {text : Bytes} {n : Int} :
    SpellsInteger text n ↔ text = Decimal.ofInt n := by
  constructor
  · intro h
    cases h with
    | nonneg hrun hshort => exact (Decimal.digits_value hrun hshort).symm
    | neg hrun hshort hpos =>
      obtain ⟨m, hm⟩ := Nat.exists_eq_succ_of_ne_zero (Nat.pos_iff_ne_zero.mp hpos)
      have hneg : -((m + 1 : Nat) : Int) = Int.negSucc m := rfl
      rw [← Decimal.digits_value hrun hshort, Decimal.value_digits, hm, hneg]
      rfl
  · rintro rfl
    cases n with
    | ofNat n =>
      have h := SpellsInteger.nonneg (Decimal.isRun_digits n) (Decimal.isShortest_digits n)
      rwa [Decimal.value_digits] at h
    | negSucc n =>
      have h := SpellsInteger.neg (Decimal.isRun_digits (n + 1))
        (Decimal.isShortest_digits (n + 1)) (by rw [Decimal.value_digits]; omega)
      rwa [Decimal.value_digits] at h

theorem spellsBytes_encodeBytes {content : Bytes} (h : content.length < UInt64.size) :
    SpellsBytes Decimal.IsShortest content (encodeBytes content) :=
  .mk (Decimal.isRun_digits _) (Decimal.isShortest_digits _) (Decimal.value_digits _) h

mutual

/-- The written form of a value is a spelling of it. -/
theorem spells_encode : ∀ {v : Value}, v.IsWritable → Spells Decimal.IsShortest v v.encode
  | .int _, _ => .int (spellsInteger_iff.mpr rfl)
  | .bytes _, h => .bytes (spellsBytes_encodeBytes h)
  | .list _, h => .list (spellsItems_encodeItems h)
  | .dict _, h => .dict h.1 (spellsEntries_encodeEntries h.2)

theorem spellsItems_encodeItems : ∀ {items : List Value}, ItemsWritable items →
    SpellsItems Decimal.IsShortest items (encodeItems items)
  | [], _ => .nil
  | _ :: _, h => .cons (spells_encode h.1) (spellsItems_encodeItems h.2)

theorem spellsEntries_encodeEntries : ∀ {entries : List (Bytes × Value)},
    EntriesWritable entries → SpellsEntries Decimal.IsShortest entries (encodeEntries entries)
  | [], _ => .nil
  | (_, _) :: _, h =>
    .cons (spellsBytes_encodeBytes h.1) (spells_encode h.2.1) (spellsEntries_encodeEntries h.2.2)

end

/-! ## A spelling without superfluous zeros is the written form -/

theorem SpellsBytes.eq_encodeBytes {content text : Bytes}
    (h : SpellsBytes Decimal.IsShortest content text) : text = encodeBytes content := by
  cases h with
  | mk hrun hP hvalue hsize =>
    rw [encodeBytes, ← hvalue, Decimal.digits_value hrun hP]

mutual

theorem Spells.eq_encode : ∀ {v : Value} {text : Bytes},
    Spells Decimal.IsShortest v text → text = v.encode
  | .int _, _, .int h => by rw [spellsInteger_iff.mp h, Value.encode]
  | .bytes _, _, .bytes h => by rw [h.eq_encodeBytes, Value.encode]
  | .list _, _, .list h => by rw [h.eq_encodeItems, Value.encode]
  | .dict _, _, .dict _ h => by rw [h.eq_encodeEntries, Value.encode]

theorem SpellsItems.eq_encodeItems : ∀ {items : List Value} {text : Bytes},
    SpellsItems Decimal.IsShortest items text → text = encodeItems items
  | [], _, .nil => rfl
  | _ :: _, _, .cons h hrest => by rw [h.eq_encode, hrest.eq_encodeItems, encodeItems]

theorem SpellsEntries.eq_encodeEntries : ∀ {entries : List (Bytes × Value)} {text : Bytes},
    SpellsEntries Decimal.IsShortest entries text → text = encodeEntries entries
  | [], _, .nil => rfl
  | _ :: _, _, .cons hkey h hrest => by
    rw [hkey.eq_encodeBytes, h.eq_encode, hrest.eq_encodeEntries, encodeEntries]

end

/-! ## Only writable values have a spelling -/

theorem SpellsBytes.length_lt {content text : Bytes} (h : SpellsBytes P content text) :
    content.length < UInt64.size := by
  cases h with
  | mk hrun hP hvalue hsize => exact hsize

mutual

theorem Spells.isWritable : ∀ {v : Value} {text : Bytes}, Spells P v text → v.IsWritable
  | .int _, _, .int _ => trivial
  | .bytes _, _, .bytes h => h.length_lt
  | .list _, _, .list h => h.itemsWritable
  | .dict _, _, .dict hkeys h => ⟨hkeys, h.entriesWritable⟩

theorem SpellsItems.itemsWritable : ∀ {items : List Value} {text : Bytes},
    SpellsItems P items text → ItemsWritable items
  | [], _, .nil => trivial
  | _ :: _, _, .cons h hrest => ⟨h.isWritable, hrest.itemsWritable⟩

theorem SpellsEntries.entriesWritable : ∀ {entries : List (Bytes × Value)} {text : Bytes},
    SpellsEntries P entries text → EntriesWritable entries
  | [], _, .nil => trivial
  | _ :: _, _, .cons hkey h hrest => ⟨hkey.length_lt, h.isWritable, hrest.entriesWritable⟩

end

/-- The one spelling without superfluous zeros is the written form. -/
theorem spells_isShortest_iff {v : Value} {text : Bytes} :
    Spells Decimal.IsShortest v text ↔ v.IsWritable ∧ text = v.encode := by
  constructor
  · intro h
    exact ⟨h.isWritable, h.eq_encode⟩
  · rintro ⟨h, rfl⟩
    exact spells_encode h

/-! ## Spellings under a weaker condition -/

theorem SpellsBytes.mono {Q : Bytes → Prop} (hPQ : ∀ run, P run → Q run) {content text : Bytes}
    (h : SpellsBytes P content text) : SpellsBytes Q content text := by
  cases h with
  | mk hrun hP hvalue hsize => exact .mk hrun (hPQ _ hP) hvalue hsize

mutual

theorem Spells.mono {Q : Bytes → Prop} (hPQ : ∀ run, P run → Q run) :
    ∀ {v : Value} {text : Bytes}, Spells P v text → Spells Q v text
  | .int _, _, .int h => .int h
  | .bytes _, _, .bytes h => .bytes (h.mono hPQ)
  | .list _, _, .list h => .list (SpellsItems.mono hPQ h)
  | .dict _, _, .dict hkeys h => .dict hkeys (SpellsEntries.mono hPQ h)

theorem SpellsItems.mono {Q : Bytes → Prop} (hPQ : ∀ run, P run → Q run) :
    ∀ {items : List Value} {text : Bytes}, SpellsItems P items text → SpellsItems Q items text
  | [], _, .nil => .nil
  | _ :: _, _, .cons h hrest => .cons (Spells.mono hPQ h) (SpellsItems.mono hPQ hrest)

theorem SpellsEntries.mono {Q : Bytes → Prop} (hPQ : ∀ run, P run → Q run) :
    ∀ {entries : List (Bytes × Value)} {text : Bytes},
      SpellsEntries P entries text → SpellsEntries Q entries text
  | [], _, .nil => .nil
  | _ :: _, _, .cons hkey h hrest =>
    .cons (hkey.mono hPQ) (Spells.mono hPQ h) (SpellsEntries.mono hPQ hrest)

end

end Bencode
end PeerLink
