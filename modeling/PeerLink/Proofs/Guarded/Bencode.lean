import PeerLink.Proofs.Bencode.Reading
import PeerLink.Proofs.Guarded.Basic

/-!
# Reading bencode by position

A machine reads bencode by a position in its input, which it moves on byte by byte.  The
readers of this module do so with guarded operations only.  A loop is given a number of runs,
and has no result if they do not suffice.

No operation stops: whatever the input, each of the readers has the result of the one in
`PeerLink.Bencode` that it corresponds to.  For whole inputs, `decode_eq` and
`decodePrefix_eq` say so.
-/

namespace PeerLink
namespace Guarded

open Bencode

/-! ## The readers -/

/-- The first position from `pos` on where the mark stands, or the end. -/
def scan (data : Bytes) (mark : UInt8) : (runs pos : Nat) → Option Nat
  | 0, _ => none
  | runs + 1, pos =>
    if pos < data.length then do
      if (← data[pos]?) = mark then return pos
      scan data mark runs (← add pos 1)
    else some pos

/-- The first position from `pos` on where a colon stands, or the end.  Nothing but digits may
come in front of it. -/
def scanDigits (data : Bytes) : (runs pos : Nat) → Option (Except Error Nat)
  | 0, _ => none
  | runs + 1, pos =>
    if pos < data.length then do
      let byte ← data[pos]?
      if byte = 58 then return .ok pos
      if !Decimal.isDigit byte then return .error .invalidStringLength
      scanDigits data runs (← add pos 1)
    else some (.ok pos)

/-- The integer that a text spells. -/
def integerOfText (text : Bytes) : Option (Except Error Int64) := do
  let negative := text.head? = some 45
  let digits := if negative then text.tail else text
  if digits.isEmpty || !digits.all Decimal.isDigit then return .error (.invalidInteger text)
  let first ← digits[0]?
  if first = 48 && (negative || 1 < digits.length) then return .error .leadingZeros
  let magnitude := Decimal.value digits
  let n : Int := if negative then -magnitude else magnitude
  return if IntegerType.full.holds n then .ok (Int64.ofInt n) else .error (.invalidInteger text)

/-- The integer whose opening mark is at `pos`. -/
def decodeInteger (data : Bytes) (pos : Nat) : Option (Except Error (Int64 × Nat)) := do
  let start ← add pos 1
  let stop ← scan data 101 (data.length + 1) start
  if data.length ≤ stop then return .error .unexpectedEof
  match ← integerOfText (← slice data start stop) with
  | .error e => return .error e
  | .ok n => return .ok (n, ← add stop 1)

/-- The byte string whose length begins at `pos`. -/
def decodeBytes (data : Bytes) (pos : Nat) : Option (Except Error (Bytes × Nat)) := do
  match ← scanDigits data (data.length + 1) pos with
  | .error e => return .error e
  | .ok colon =>
    if data.length ≤ colon then return .error .unexpectedEof
    let digits ← slice data pos colon
    if digits.isEmpty || UInt64.size ≤ Decimal.value digits then
      return .error .invalidStringLength
    let start ← add colon 1
    if (← sub data.length start) < Decimal.value digits then return .error .unexpectedEof
    let stop ← add start (Decimal.value digits)
    return .ok (← slice data start stop, stop)

/-- The items from `pos` up to the closing mark. -/
def decodeItems (item : Nat → Option (Except Error (Value × Nat))) (data : Bytes) :
    (runs : Nat) → (done : List Value) → (pos : Nat) → Option (Except Error (List Value × Nat))
  | 0, _, _ => none
  | runs + 1, done, pos =>
    if pos < data.length then do
      if (← data[pos]?) = 101 then return .ok (done.reverse, ← add pos 1)
      match ← item pos with
      | .error e => return .error e
      | .ok (value, pos) => decodeItems item data runs (value :: done) pos
    else some (.error .unexpectedEof)

/-- The entries from `pos` up to the closing mark. -/
def decodeEntries (item : Nat → Option (Except Error (Value × Nat))) (data : Bytes) :
    (runs : Nat) → (done : Dict) → (pos : Nat) → Option (Except Error (Entries × Nat))
  | 0, _, _ => none
  | runs + 1, done, pos =>
    if pos < data.length then do
      let byte ← data[pos]?
      if byte = 101 then return .ok (done.toList, ← add pos 1)
      if !Decimal.isDigit byte then return .error (.unexpectedByte (← data[pos]?))
      match ← decodeBytes data pos with
      | .error e => return .error e
      | .ok (key, pos) =>
        if done.contains key then return .error (.duplicateKey key)
        match ← item pos with
        | .error e => return .error e
        | .ok (value, pos) => decodeEntries item data runs (done.push key value) pos
    else some (.error .unexpectedEof)

/-- The value that begins at `pos`, so many levels deep. -/
def decodeValue (data : Bytes) : (runs depth pos : Nat) → Option (Except Error (Value × Nat))
  | 0, _, _ => none
  | runs + 1, depth, pos => do
    if maxDepth < depth then return .error .nestingTooDeep
    if data.length ≤ pos then return .error .unexpectedEof
    let byte ← data[pos]?
    let item pos := do decodeValue data runs (← add depth 1) pos
    if byte = 105 then
      return (← decodeInteger data pos).map (Prod.map .int id)
    else if byte = 108 then
      return (← decodeItems item data (data.length + 1) [] (← add pos 1)).map (Prod.map .list id)
    else if byte = 100 then
      return (← decodeEntries item data (data.length + 1) ∅ (← add pos 1)).map
        (Prod.map .dict id)
    else if Decimal.isDigit byte then
      return (← decodeBytes data pos).map (Prod.map .bytes id)
    else return .error (.unexpectedByte byte)

/-- The value at the front of the input, and the position behind it. -/
def decodePrefix (data : Bytes) : Option (Except Error (Value × Nat)) :=
  decodeValue data (maxDepth + 2) 0 0

/-- The value that spans the whole input. -/
def decode (data : Bytes) : Option (Except Error Value) := do
  match ← decodePrefix data with
  | .error e => return .error e
  | .ok (value, consumed) =>
    if consumed = data.length then return .ok value else return .error .trailingData

/-! ## Scanning -/

variable {data : Bytes}

/-- The byte at a position, and what follows it. -/
theorem getElem?_of_drop_eq_cons {pos : Nat} {byte : UInt8} {rest : Bytes}
    (h : data.drop pos = byte :: rest) :
    pos < data.length ∧ data[pos]? = some byte ∧ data.drop (pos + 1) = rest := by
  have hlength := congrArg List.length h
  rw [List.length_drop, List.length_cons] at hlength
  refine ⟨by omega, ?_, ?_⟩
  · rw [← List.head?_drop, h, List.head?_cons]
  · rw [← List.drop_drop, h, List.drop_one, List.tail_cons]

/-- What is left of the input stands where its length says. -/
theorem drop_of_suffix {rest : Bytes} (h : rest <:+ data) :
    data.drop (data.length - rest.length) = rest :=
  (List.suffix_iff_eq_drop.mp h).symm

theorem dropWhile_drop (p : UInt8 → Bool) (data : Bytes) (pos : Nat) :
    (data.drop pos).dropWhile p = data.drop (pos + ((data.drop pos).takeWhile p).length) := by
  have hparts := List.takeWhile_append_dropWhile (p := p) (l := data.drop pos)
  calc
    (data.drop pos).dropWhile p
        = ((data.drop pos).takeWhile p ++ (data.drop pos).dropWhile p).drop
            ((data.drop pos).takeWhile p).length := List.drop_left.symm
    _ = (data.drop pos).drop ((data.drop pos).takeWhile p).length := by rw [hparts]
    _ = data.drop (pos + ((data.drop pos).takeWhile p).length) := List.drop_drop

/-- What was skipped is there in the input. -/
theorem takeWhile_drop_le (p : UInt8 → Bool) {pos : Nat} (hpos : pos ≤ data.length) :
    pos + ((data.drop pos).takeWhile p).length ≤ data.length := by
  have hle := (List.takeWhile_prefix p (l := data.drop pos)).length_le
  rw [List.length_drop] at hle
  omega

theorem scan_eq (hdata : data.length < 2 ^ 64) (mark : UInt8) {runs pos : Nat}
    (hpos : pos ≤ data.length) (hruns : data.length < pos + runs) :
    scan data mark runs pos = some (pos + ((data.drop pos).takeWhile (· != mark)).length) := by
  induction runs generalizing pos with
  | zero => omega
  | succ runs ih =>
    rw [scan]
    cases hdrop : data.drop pos with
    | nil =>
      have hend : ¬ pos < data.length := Nat.not_lt.mpr (List.drop_eq_nil_iff.mp hdrop)
      rw [if_neg hend]
      rfl
    | cons byte rest =>
      obtain ⟨hlt, hbyte, hrest⟩ := getElem?_of_drop_eq_cons hdrop
      have hnext : add pos 1 = some (pos + 1) := add_eq (by omega)
      have hlater := @ih (pos + 1) (by omega) (by omega)
      rw [hrest] at hlater
      rw [if_pos hlt, hbyte, List.takeWhile_cons]
      simp only [Option.bind_eq_bind, Option.bind_some, hnext, hlater]
      by_cases hmark : byte = mark
      · simp [hmark]
      · simp [hmark, Nat.add_assoc, Nat.add_comm 1]

/-- The length in front of a byte string ends at a colon or with the input, or it is none. -/
theorem scanDigits_eq (hdata : data.length < 2 ^ 64) {runs pos : Nat}
    (hpos : pos ≤ data.length) (hruns : data.length < pos + runs) :
    scanDigits data runs pos = some (match (data.drop pos).dropWhile Decimal.isDigit with
      | [] => .ok data.length
      | byte :: _ =>
        if byte = 58 then .ok (pos + ((data.drop pos).takeWhile Decimal.isDigit).length)
        else .error .invalidStringLength) := by
  induction runs generalizing pos with
  | zero => omega
  | succ runs ih =>
    rw [scanDigits]
    cases hdrop : data.drop pos with
    | nil =>
      have hend : data.length ≤ pos := List.drop_eq_nil_iff.mp hdrop
      rw [if_neg (Nat.not_lt.mpr hend), Nat.le_antisymm hpos hend]
      rfl
    | cons byte rest =>
      obtain ⟨hlt, hbyte, hrest⟩ := getElem?_of_drop_eq_cons hdrop
      have hnext : add pos 1 = some (pos + 1) := add_eq (by omega)
      have hlater := @ih (pos + 1) (by omega) (by omega)
      rw [hrest] at hlater
      rw [if_pos hlt, hbyte]
      simp only [Option.bind_eq_bind, Option.bind_some, hnext]
      by_cases hdigit : Decimal.isDigit byte = true
      · have hcolon : ¬ byte = 58 := Decimal.ne_of_isDigit hdigit (by decide)
        rw [if_neg hcolon, if_neg (by simp [hdigit]), hlater,
          List.dropWhile_cons_of_pos hdigit, List.takeWhile_cons_of_pos hdigit,
          List.length_cons, Nat.add_right_comm, Nat.add_assoc]
      · rw [List.dropWhile_cons_of_neg hdigit, List.takeWhile_cons_of_neg hdigit]
        by_cases hcolon : byte = 58
        · simp [hcolon]
        · simp [hcolon, hdigit]

/-! ## Integers and byte strings -/

/-- An answer of a reader, with the position where it stopped. -/
def located {α : Type} (data : Bytes) {input : Bytes} (answer : Except Error (α × Shorter input)) :
    Except Error (α × Nat) :=
  answer.map fun (a, rest) => (a, data.length - rest.1.length)

/-- From every position, the one reads by position what the other reads of the bytes there. -/
structure Follows {α : Type} (data : Bytes) (item : Nat → Option (Except Error (α × Nat)))
    (reader : Reader α) : Prop where
  eq : ∀ pos, pos ≤ data.length → item pos = some (located data (reader (data.drop pos)))
  /-- What the reader leaves is the end of its input. -/
  suffix : ∀ input a rest, reader input = .ok (a, rest) → rest.1 <:+ input

theorem integerOfText_eq (text : Bytes) :
    integerOfText text = some (Bencode.integerOfText text) := by
  rw [integerOfText, Bencode.integerOfText]
  dsimp only
  generalize (if text.head? = some 45 then text.tail else text) = digits
  split
  · rfl
  · next hrun =>
    cases digits with
    | nil => exact absurd rfl hrun
    | cons first rest =>
      simp only [List.getElem?_cons_zero, Option.bind_eq_bind, Option.bind_some, List.head?_cons,
        Option.some.injEq]
      split
      · rfl
      · split <;> rfl

/-- A slice over what was skipped. -/
theorem slice_takeWhile (p : UInt8 → Bool) {pos : Nat} (hpos : pos ≤ data.length) :
    slice data pos (pos + ((data.drop pos).takeWhile p).length) =
      some ((data.drop pos).takeWhile p) := by
  rw [slice_eq (Nat.le_add_right _ _) (takeWhile_drop_le p hpos), Nat.add_sub_cancel_left,
    ← List.prefix_iff_eq_take.mp (List.takeWhile_prefix p)]

theorem located_readInteger (data input : Bytes) :
    located data (readInteger input) = match input.dropWhile (· != 101) with
      | [] => .error .unexpectedEof
      | _ :: rest => (Bencode.integerOfText (input.takeWhile (· != 101))).map fun n =>
          (n, data.length - rest.length) := by
  rw [readInteger]
  split
  · next hnil =>
    rw [hnil]
    rfl
  · next mark rest hcons =>
    simp only [hcons]
    cases Bencode.integerOfText (input.takeWhile (· != 101)) <;> rfl

theorem located_readBytes (data input : Bytes) :
    located data (readBytes input) = match input.dropWhile Decimal.isDigit with
      | [] => .error .unexpectedEof
      | byte :: rest =>
        let digits := input.takeWhile Decimal.isDigit
        if byte = 58 then
          if digits.isEmpty || UInt64.size ≤ Decimal.value digits then
            .error .invalidStringLength
          else if rest.length < Decimal.value digits then .error .unexpectedEof
          else .ok (rest.take (Decimal.value digits),
            data.length - (rest.drop (Decimal.value digits)).length)
        else .error .invalidStringLength := by
  rw [readBytes]
  split
  · next hnil =>
    rw [hnil]
    rfl
  · next byte rest hcons =>
    simp only [hcons]
    by_cases hcolon : byte = 58
    · by_cases hempty : (input.takeWhile Decimal.isDigit).isEmpty = true
      · simp [located, Except.map, hcolon, hempty]
      · by_cases hsize : UInt64.size ≤ Decimal.value (input.takeWhile Decimal.isDigit)
        · simp [located, Except.map, hcolon, hempty, hsize]
        · simp only [hcolon, hempty, hsize, bne_self_eq_false, Bool.or_self, decide_false,
            if_true, if_false, Bool.false_eq_true]
          split
          · next hnone =>
            rw [Bytes.splitAt?_eq_none_iff] at hnone
            rw [if_pos hnone]
            rfl
          · next content left hsome =>
            obtain ⟨hcontent, hparts⟩ := Bytes.splitAt?_eq_some_iff.mp hsome
            change Except.ok (content, data.length - left.length) = _
            rw [← hcontent, hparts, List.take_left, List.drop_left, List.length_append,
              if_neg (Nat.not_lt.mpr (Nat.le_add_right _ _))]
    · simp [located, Except.map, hcolon]

theorem decodeInteger_eq (hdata : data.length < 2 ^ 64) {pos : Nat} (hpos : pos < data.length) :
    decodeInteger data pos = some (located data (readInteger (data.drop (pos + 1)))) := by
  have hstart : add pos 1 = some (pos + 1) := add_eq (by omega)
  have hruns : data.length < pos + 1 + (data.length + 1) := by omega
  have hscan := scan_eq hdata 101 (Nat.succ_le_of_lt hpos) hruns
  have hslice := slice_takeWhile (· != 101) (Nat.succ_le_of_lt hpos)
  rw [decodeInteger, located_readInteger, dropWhile_drop]
  simp only [Option.bind_eq_bind, Option.bind_some, hstart, hscan, hslice, integerOfText_eq]
  generalize (data.drop (pos + 1)).takeWhile (· != 101) = text
  split
  · next hend =>
    rw [List.drop_eq_nil_of_le hend]
    rfl
  · next hend =>
    have hmark : pos + 1 + text.length < data.length := Nat.not_le.mp hend
    have hnext : add (pos + 1 + text.length) 1 = some (pos + 1 + text.length + 1) :=
      add_eq (by omega)
    rw [List.drop_eq_getElem_cons hmark, hnext]
    cases Bencode.integerOfText text with
    | error e => rfl
    | ok n =>
      simp only [Except.map, Option.pure_def, Option.bind_some, List.length_drop]
      congr 3
      omega

theorem follows_decodeBytes (hdata : data.length < 2 ^ 64) :
    Follows data (decodeBytes data) readBytes where
  eq pos hpos := by
    have hruns : data.length < pos + (data.length + 1) := by omega
    have hscan := scanDigits_eq hdata hpos hruns
    have hslice := slice_takeWhile Decimal.isDigit hpos
    rw [decodeBytes, hscan, located_readBytes]
    rw [dropWhile_drop]
    generalize (data.drop pos).takeWhile Decimal.isDigit = digits at hslice ⊢
    cases hrest : data.drop (pos + digits.length) with
    | nil =>
      simp
    | cons byte rest =>
      obtain ⟨hcolon, -, hbehind⟩ := getElem?_of_drop_eq_cons hrest
      by_cases hbyte : byte = 58
      · have hnext : add (pos + digits.length) 1 = some (pos + digits.length + 1) :=
          add_eq (by omega)
        have hleft : sub data.length (pos + digits.length + 1) = some rest.length := by
          rw [sub_eq (by omega), ← hbehind, List.length_drop]
        have hrest := congrArg List.length hbehind
        rw [List.length_drop] at hrest
        simp only [hbyte, if_true, Option.bind_eq_bind, Option.bind_some,
          if_neg (Nat.not_le.mpr hcolon), hslice, hnext, hleft]
        split
        · rfl
        · split
          · rfl
          · next hfits =>
            have hstop : add (pos + digits.length + 1) (Decimal.value digits) =
                some (pos + digits.length + 1 + Decimal.value digits) := add_eq (by omega)
            have hcontent : slice data (pos + digits.length + 1)
                (pos + digits.length + 1 + Decimal.value digits) =
                  some (rest.take (Decimal.value digits)) := by
              rw [slice_eq (Nat.le_add_right _ _) (by omega), Nat.add_sub_cancel_left, hbehind]
            simp only [hstop, hcontent, Option.bind_some, Option.pure_def, List.length_drop]
            congr 3
            omega
      · simp [hbyte]
  suffix input content rest h := by
    obtain ⟨text, -, hinput⟩ := reads_readBytes_iff.mp ⟨rest.2, h⟩
    exact ⟨text, hinput.symm⟩

/-! ## Values -/

variable {item : Nat → Option (Except Error (Value × Nat))} {reader : Reader Value}

/-- Reading goes on where it stopped. -/
theorem Follows.goesOn {α : Type} {item : Nat → Option (Except Error (α × Nat))}
    {reader : Reader α} (h : Follows data item reader) {pos : Nat} (hpos : pos ≤ data.length)
    {input : Bytes} (hinput : data.drop pos = input) {a : α} {rest : Bytes}
    {hshort : rest.length < input.length} (hread : reader input = .ok (a, ⟨rest, hshort⟩)) :
    ∃ next, item pos = some (.ok (a, next)) ∧ data.drop next = rest ∧
      pos < next ∧ next ≤ data.length := by
  subst hinput
  have hlength := hshort
  rw [List.length_drop] at hlength
  refine ⟨data.length - rest.length, ?_, ?_, by omega, Nat.sub_le _ _⟩
  · rw [h.eq pos hpos, hread]
    rfl
  · exact drop_of_suffix ((h.suffix _ _ _ hread).trans (List.drop_suffix _ _))

theorem Follows.fails {α : Type} {item : Nat → Option (Except Error (α × Nat))}
    {reader : Reader α} (h : Follows data item reader) {pos : Nat} (hpos : pos ≤ data.length)
    {input : Bytes} (hinput : data.drop pos = input) {e : Error}
    (hread : reader input = .error e) : item pos = some (.error e) := by
  rw [h.eq pos hpos, hinput, hread]
  rfl

/-- The loop over the items runs as long as there is something to read. -/
theorem decodeItems_eq (hdata : data.length < 2 ^ 64) (hitem : Follows data item reader)
    {outer : Bytes} {done : List Value} {input : Bytes} (h : input.length < outer.length)
    {runs pos : Nat} (hinput : data.drop pos = input) (hpos : pos ≤ data.length)
    (hruns : data.length ≤ pos + runs) :
    decodeItems item data (runs + 1) done pos =
      some (located data (readItems reader outer done input h)) := by
  fun_induction readItems reader outer done input h generalizing runs pos with
  | case1 =>
    have hend := Nat.not_lt.mpr (List.drop_eq_nil_iff.mp hinput)
    rw [decodeItems, if_neg hend]
    rfl
  | case2 done rest =>
    obtain ⟨hlt, hbyte, hrest⟩ := getElem?_of_drop_eq_cons hinput
    have hnext : add pos 1 = some (pos + 1) := add_eq (by omega)
    have hleft : data.length - rest.length = pos + 1 := by
      rw [← hrest, List.length_drop]
      omega
    rw [decodeItems, if_pos hlt, hbyte]
    simp [hnext, hleft, located, Except.map]
  | case3 done byte rest _ hmark e hread =>
    obtain ⟨hlt, hbyte, -⟩ := getElem?_of_drop_eq_cons hinput
    rw [decodeItems, if_pos hlt, hbyte]
    simp [hmark, hitem.fails hpos hinput hread, located, Except.map]
  | case4 done byte rest _ hmark v left _ hread _ ih =>
    obtain ⟨hlt, hbyte, -⟩ := getElem?_of_drop_eq_cons hinput
    obtain ⟨next, hvalue, hdrop, hforth, hnext⟩ := hitem.goesOn hpos hinput hread
    obtain ⟨fewer, rfl⟩ : ∃ fewer, runs = fewer + 1 := ⟨runs - 1, by omega⟩
    have hlater := @ih fewer next hdrop hnext (by omega)
    rw [decodeItems, if_pos hlt, hbyte]
    simp [hmark, hvalue, hlater]

/-- The loop over the entries runs as long as there is something to read. -/
theorem decodeEntries_eq (hdata : data.length < 2 ^ 64) (hitem : Follows data item reader)
    {outer : Bytes} {done : Dict} {input : Bytes} (h : input.length < outer.length)
    {runs pos : Nat} (hinput : data.drop pos = input) (hpos : pos ≤ data.length)
    (hruns : data.length ≤ pos + runs) :
    decodeEntries item data (runs + 1) done pos =
      some (located data (readEntries reader outer done input h)) := by
  have hbytes := follows_decodeBytes hdata
  fun_induction readEntries reader outer done input h generalizing runs pos with
  | case1 =>
    have hend := Nat.not_lt.mpr (List.drop_eq_nil_iff.mp hinput)
    rw [decodeEntries, if_neg hend]
    rfl
  | case2 done rest =>
    obtain ⟨hlt, hbyte, hrest⟩ := getElem?_of_drop_eq_cons hinput
    have hnext : add pos 1 = some (pos + 1) := add_eq (by omega)
    have hleft : data.length - rest.length = pos + 1 := by
      rw [← hrest, List.length_drop]
      omega
    rw [decodeEntries, if_pos hlt, hbyte]
    simp [hnext, hleft, located, Except.map]
  | case3 done byte rest _ hmark hdigit =>
    obtain ⟨hlt, hbyte, -⟩ := getElem?_of_drop_eq_cons hinput
    have hdigit : Decimal.isDigit byte = false := by simpa using hdigit
    rw [decodeEntries, if_pos hlt, hbyte]
    simp [hmark, hdigit, located, Except.map]
  | case4 done byte rest _ hmark hdigit e hread =>
    obtain ⟨hlt, hbyte, -⟩ := getElem?_of_drop_eq_cons hinput
    have hdigit : Decimal.isDigit byte = true := by simpa using hdigit
    rw [decodeEntries, if_pos hlt, hbyte]
    simp [hmark, hdigit, hbytes.fails hpos hinput hread, located, Except.map]
  | case5 done byte rest _ hmark hdigit key left _ hread hknown =>
    obtain ⟨hlt, hbyte, -⟩ := getElem?_of_drop_eq_cons hinput
    obtain ⟨next, hkey, -⟩ := hbytes.goesOn hpos hinput hread
    have hdigit : Decimal.isDigit byte = true := by simpa using hdigit
    rw [decodeEntries, if_pos hlt, hbyte]
    simp [hmark, hdigit, hkey, hknown, located, Except.map]
  | case6 done byte rest _ hmark hdigit key left _ hread hnew e hfails =>
    obtain ⟨hlt, hbyte, -⟩ := getElem?_of_drop_eq_cons hinput
    obtain ⟨next, hkey, hdrop, -, hnext⟩ := hbytes.goesOn hpos hinput hread
    have hdigit : Decimal.isDigit byte = true := by simpa using hdigit
    rw [decodeEntries, if_pos hlt, hbyte]
    simp [hmark, hdigit, hkey, hnew, hitem.fails hnext hdrop hfails, located, Except.map]
  | case7 done byte rest _ hmark hdigit key left _ hread hnew v behind _ hvalue _ ih =>
    obtain ⟨hlt, hbyte, -⟩ := getElem?_of_drop_eq_cons hinput
    obtain ⟨next, hkey, hdrop, hforth, hnext⟩ := hbytes.goesOn hpos hinput hread
    obtain ⟨last, hread, hend, hfarther, hlast⟩ := hitem.goesOn hnext hdrop hvalue
    have hdigit : Decimal.isDigit byte = true := by simpa using hdigit
    obtain ⟨fewer, rfl⟩ : ∃ fewer, runs = fewer + 1 := ⟨runs - 1, by omega⟩
    have hlater := @ih fewer last hend hlast (by omega)
    rw [decodeEntries, if_pos hlt, hbyte]
    simp [hmark, hdigit, hkey, hnew, hread, hlater]

theorem suffix_of_readValue {levels : Nat} {input : Bytes} {v : Value} {rest : Shorter input}
    (h : readValue levels input = .ok (v, rest)) : rest.1 <:+ input := by
  obtain ⟨text, -, -, hinput⟩ := (readsBelow_readValue levels input v rest.1).mp ⟨rest.2, h⟩
  exact ⟨text, hinput.symm⟩

/-- Values are read by position as deep as they are read otherwise. -/
theorem follows_decodeValue (hdata : data.length < 2 ^ 64) {runs depth : Nat}
    (hdepth : depth + runs = maxDepth + 1) :
    Follows data (decodeValue data (runs + 1) depth) (readValue runs) := by
  induction runs generalizing depth with
  | zero =>
    refine ⟨fun pos hpos => ?_, fun _ _ _ => suffix_of_readValue⟩
    rw [decodeValue, if_pos (by omega)]
    rfl
  | succ runs ih =>
    refine ⟨fun pos hpos => ?_, fun _ _ _ => suffix_of_readValue⟩
    have hshallow : ¬ maxDepth < depth := by omega
    have hdeeper : add depth 1 = some (depth + 1) := by
      refine add_eq ?_
      rw [maxDepth] at hdepth
      omega
    have hitem := @ih (depth + 1) (by omega)
    rw [decodeValue, if_neg hshallow]
    cases hinput : data.drop pos with
    | nil =>
      rw [if_pos (List.drop_eq_nil_iff.mp hinput)]
      rfl
    | cons byte rest =>
      obtain ⟨hlt, hbyte, hrest⟩ := getElem?_of_drop_eq_cons hinput
      have hnext : add pos 1 = some (pos + 1) := add_eq (by omega)
      have hinner : data.length ≤ pos + 1 + data.length := by omega
      have hshort : rest.length < (byte :: rest).length := Nat.lt_succ_self _
      rw [if_neg (Nat.not_le.mpr hlt), hbyte, readValue]
      simp only [Option.bind_eq_bind, Option.bind_some, hnext, hdeeper, Option.pure_def]
      by_cases hint : byte = 105
      · rw [if_pos hint, if_pos hint, decodeInteger_eq hdata hlt, hrest]
        cases readInteger rest <;> rfl
      by_cases hlist : byte = 108
      · rw [if_neg hint, if_neg hint, if_pos hlist, if_pos hlist,
          decodeItems_eq hdata hitem hshort hrest hlt hinner]
        cases readItems (readValue runs) (byte :: rest) [] rest hshort <;> rfl
      by_cases hdict : byte = 100
      · rw [if_neg hint, if_neg hint, if_neg hlist, if_neg hlist, if_pos hdict, if_pos hdict,
          decodeEntries_eq hdata hitem hshort hrest hlt hinner]
        cases readEntries (readValue runs) (byte :: rest) ∅ rest hshort <;> rfl
      rw [if_neg hint, if_neg hint, if_neg hlist, if_neg hlist, if_neg hdict, if_neg hdict]
      by_cases hdigit : Decimal.isDigit byte = true
      · rw [if_pos hdigit, if_pos hdigit, (follows_decodeBytes hdata).eq pos hpos, hinput]
        cases readBytes (byte :: rest) <;> rfl
      · rw [if_neg hdigit, if_neg hdigit]
        rfl

/-- No operation stops while a value is taken off the front of an input. -/
theorem decodePrefix_eq (hdata : data.length < 2 ^ 64) :
    decodePrefix data = some (Bencode.decodePrefix data) := by
  have hvalue := (follows_decodeValue hdata (Nat.zero_add (maxDepth + 1))).eq 0 (Nat.zero_le _)
  rw [decodePrefix, hvalue, Bencode.decodePrefix, Value.read, List.drop_zero]
  cases readValue (maxDepth + 1) data <;> rfl

/-- No operation stops while the value that spans an input is read. -/
theorem decode_eq (hdata : data.length < 2 ^ 64) : decode data = some (Bencode.decode data) := by
  have hvalue := (follows_decodeValue hdata (Nat.zero_add (maxDepth + 1))).eq 0 (Nat.zero_le _)
  rw [decode, decodePrefix, hvalue, Bencode.decode, Value.read, List.drop_zero]
  cases readValue (maxDepth + 1) data with
  | error e => rfl
  | ok read =>
    obtain ⟨v, rest, hrest⟩ := read
    cases rest with
    | nil => simp [located, Except.map]
    | cons byte rest =>
      have hconsumed : ¬ data.length - (rest.length + 1) = data.length := by
        rw [List.length_cons] at hrest
        omega
      simp [located, Except.map, hconsumed]

end Guarded
end PeerLink
