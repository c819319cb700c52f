import Mathlib.Logic.Function.Iterate
import PeerLink.Proofs.Bencode.Reading
import PeerLink.Proofs.Except

/-!
# Writing what was read, reading what was written

What is read is written back as it was exactly if no length in it has a zero
that could be left out; `encode_eq_iff_of_decode` says this for whole inputs and
for the front of one.  In the other direction, `decodePrefix_encode_append`
reads back every value that can be written and does not nest too deep, whatever
follows it, and refuses every value that does.
-/

namespace PeerLink
namespace Bencode

/-- A value that was read is written as one of the spellings of what was read, and
as the same one unless a length had a superfluous zero. -/
theorem encode_eq_iff_of_spells {v : Value} {text : Bytes} (h : Spells AnyLength v text) :
    v.encode = text ↔ Spells Decimal.IsShortest v text := by
  rw [spells_isShortest_iff, eq_comm]
  exact (and_iff_right h.isWritable).symm

/-- What was read from an input is written back as it was if and only if no length
in front of a byte string had a zero that could be left out. -/
theorem encode_eq_iff_of_decode (input : Bytes) (v : Value) :
    (decode input = .ok v →
      Spells AnyLength v input ∧ (v.encode = input ↔ Spells Decimal.IsShortest v input)) ∧
    ∀ count, decodePrefix input = .ok (v, count) →
      Spells AnyLength v (input.take count) ∧
        (v.encode = input.take count ↔ Spells Decimal.IsShortest v (input.take count)) := by
  constructor
  · intro h
    have hspells := (decode_eq_ok_iff.mp h).2
    exact ⟨hspells, encode_eq_iff_of_spells hspells⟩
  · intro count h
    have hspells := (decodePrefix_eq_ok_iff.mp h).2.2
    exact ⟨hspells, encode_eq_iff_of_spells hspells⟩

/-- A list of two byte strings, of which only the second has a superfluous zero in
front of its length, is not written back as it was; a list without such zeros is,
whatever follows it. -/
theorem encode_eq_iff_of_decode_list :
    (decode [108, 49, 58, 97, 48, 50, 58, 98, 99, 101] =
        .ok (.list [.bytes [97], .bytes [98, 99]]) ∧
      ((Value.list [.bytes [97], .bytes [98, 99]]).encode =
          [108, 49, 58, 97, 48, 50, 58, 98, 99, 101] ↔
        Spells Decimal.IsShortest (.list [.bytes [97], .bytes [98, 99]])
          [108, 49, 58, 97, 48, 50, 58, 98, 99, 101])) ∧
    decodePrefix [108, 49, 58, 97, 101, 48] = .ok (.list [.bytes [97]], 5) ∧
      ((Value.list [.bytes [97]]).encode = [108, 49, 58, 97, 101, 48].take 5 ↔
        Spells Decimal.IsShortest (.list [.bytes [97]]) ([108, 49, 58, 97, 101, 48].take 5)) := by
  have hwhole : decode [108, 49, 58, 97, 48, 50, 58, 98, 99, 101] =
      .ok (.list [.bytes [97], .bytes [98, 99]]) := by cbv
  have hfront : decodePrefix [108, 49, 58, 97, 101, 48] = .ok (.list [.bytes [97]], 5) := by cbv
  exact ⟨⟨hwhole, ((encode_eq_iff_of_decode _ _).1 hwhole).2⟩,
    hfront, ((encode_eq_iff_of_decode _ _).2 5 hfront).2⟩

/-- The byte string `abc` is read from a text whose length is written with a zero in
front, and is written without it. -/
theorem encode_ne_of_superfluous_zero :
    decode [48, 51, 58, 97, 98, 99] = .ok (.bytes [97, 98, 99]) ∧
      (Value.bytes [97, 98, 99]).encode ≠ [48, 51, 58, 97, 98, 99] := by
  constructor
  · decide
  · simp [Value.encode, encodeBytes, Decimal.digits]

theorem decode_encode {v : Value} (h : v.IsWritable) (hheight : v.height ≤ maxDepth) :
    decode v.encode = .ok v :=
  decode_eq_ok_iff.mpr ⟨hheight, Spells.mono (fun _ _ => trivial) (spells_encode h)⟩

/-- A dictionary with distinct keys can be written, and nests no deeper than is read, if that
holds of its entries. -/
theorem isWritable_dict {entries : List (Bytes × Value)} (hkeys : (entries.map Prod.fst).Nodup)
    (hentries : ∀ entry ∈ entries,
      (entry.1.length < UInt64.size ∧ entry.2.IsWritable) ∧ entry.2.height < maxDepth) :
    (Value.dict entries).IsWritable ∧ (Value.dict entries).height ≤ maxDepth := by
  constructor
  · exact ⟨hkeys, entriesWritable_iff.mpr fun entry hentry => (hentries entry hentry).1⟩
  · exact entriesHeight_le_iff.mpr fun entry hentry => (hentries entry hentry).2

/-! ## Words as integers -/

theorem narrow_ofNat (type : IntegerType) (n : Nat) (hn : n < 2 ^ 63)
    (htype : type.holds n = true) :
    (Value.int (Int64.ofNat n)).narrow type = .ok (Int64.ofNat n) := by
  rw [Value.narrow, Int64.toInt_ofNat_of_lt hn, if_pos htype]

theorem toUInt8_ofNat (byte : UInt8) :
    (Value.int (Int64.ofNat byte.toNat)).toUInt8 = .ok byte := by
  have hbyte := byte.toNat_lt
  have hnarrow := narrow_ofNat .byte byte.toNat (by omega)
    (by simp [IntegerType.holds, IntegerType.bound, IntegerType.byte, IntegerWidth.bits]; omega)
  rw [Value.toUInt8, hnarrow, Except.map, Int64.toInt_ofNat_of_lt (by omega), Int.toNat_natCast,
    UInt8.ofNat_toNat]

theorem toUInt32_ofNat (word : UInt32) :
    (Value.int (Int64.ofNat word.toNat)).toUInt32 = .ok word := by
  have hword := word.toNat_lt
  have hnarrow := narrow_ofNat .word word.toNat (by omega)
    (by simp [IntegerType.holds, IntegerType.bound, IntegerType.word, IntegerWidth.bits]; omega)
  rw [Value.toUInt32, hnarrow, Except.map, Int64.toInt_ofNat_of_lt (by omega), Int.toNat_natCast,
    UInt32.ofNat_toNat]

theorem narrow_eq_ok_iff {type : IntegerType} {v : Value} {n : Int64} :
    v.narrow type = .ok n ↔ v = .int n ∧ type.holds n.toInt = true := by
  cases v with
  | int m =>
    rw [Value.narrow, Value.int.injEq]
    split
    · next hholds =>
      rw [Except.ok.injEq, iff_self_and]
      rintro rfl
      exact hholds
    · next hholds =>
      refine iff_of_false (by simp) ?_
      rintro ⟨rfl, hn⟩
      exact hholds hn
  | _ =>
    refine iff_of_false ?_ ?_
    · rintro ⟨⟩
    · rintro ⟨⟨⟩, -⟩

theorem eq_ofNat_of_nonneg {n : Int64} (h : 0 ≤ n.toInt) : n = Int64.ofNat n.toInt.toNat := by
  apply Int64.toInt_inj.mp
  have hlt := Int64.toInt_lt n
  rw [Int64.toInt_ofNat_of_lt (by omega), Int.toNat_of_nonneg h]

/-- Only the integer that a byte is written as is read as the byte. -/
theorem toUInt8_eq_ok_iff {v : Value} {byte : UInt8} :
    v.toUInt8 = .ok byte ↔ v = .int (Int64.ofNat byte.toNat) := by
  constructor
  · intro h
    obtain ⟨n, hn, hbyte⟩ := map_eq_ok_iff.mp h
    obtain ⟨rfl, hholds⟩ := narrow_eq_ok_iff.mp hn
    have hrange : 0 ≤ n.toInt ∧ n.toInt < 256 := by
      simpa [IntegerType.holds, IntegerType.bound, IntegerType.byte, IntegerWidth.bits] using hholds
    have hsame : byte.toNat = n.toInt.toNat := by
      rw [← hbyte, UInt8.toNat_ofNat']
      omega
    rw [hsame, ← eq_ofNat_of_nonneg hrange.1]
  · rintro rfl
    exact toUInt8_ofNat byte

/-- Only the integer that a word is written as is read as the word. -/
theorem toUInt32_eq_ok_iff {v : Value} {word : UInt32} :
    v.toUInt32 = .ok word ↔ v = .int (Int64.ofNat word.toNat) := by
  constructor
  · intro h
    obtain ⟨n, hn, hword⟩ := map_eq_ok_iff.mp h
    obtain ⟨rfl, hholds⟩ := narrow_eq_ok_iff.mp hn
    have hrange : 0 ≤ n.toInt ∧ n.toInt < 4294967296 := by
      simpa [IntegerType.holds, IntegerType.bound, IntegerType.word, IntegerWidth.bits] using hholds
    have hsame : word.toNat = n.toInt.toNat := by
      rw [← hword, UInt32.toNat_ofNat']
      omega
    rw [hsame, ← eq_ofNat_of_nonneg hrange.1]
  · rintro rfl
    exact toUInt32_ofNat word

/-- A value that can be written is read back, whatever follows it, if it nests at
most 64 deep, and is refused otherwise. -/
theorem decodePrefix_encode_append {v : Value} (h : v.IsWritable) (rest : Bytes) :
    (v.height ≤ 64 → decodePrefix (v.encode ++ rest) = .ok (v, v.encode.length)) ∧
      (64 < v.height → decodePrefix (v.encode ++ rest) = .error .nestingTooDeep) := by
  have hspells : Spells AnyLength v v.encode :=
    Spells.mono (fun _ _ => trivial) (spells_encode h)
  constructor
  · intro hheight
    rw [decodePrefix_eq_ok_iff, List.take_left]
    exact ⟨hheight, by simp, hspells⟩
  · intro hheight
    rw [decodePrefix, read_eq_nestingTooDeep hspells hheight]

/-- A dictionary with an empty key, the least integer and marks inside byte strings
is read back, and a value that nests 65 deep is refused. -/
theorem decodePrefix_encode_append_at_limits :
    ((Value.dict [([], .int Int64.minValue),
          ([101, 58], .list [.bytes [], .dict []])]).IsWritable ∧
      decodePrefix ((Value.dict [([], .int Int64.minValue),
          ([101, 58], .list [.bytes [], .dict []])]).encode ++ [101, 49, 58]) =
        .ok (.dict [([], .int Int64.minValue), ([101, 58], .list [.bytes [], .dict []])],
          (Value.dict [([], .int Int64.minValue),
            ([101, 58], .list [.bytes [], .dict []])]).encode.length)) ∧
    ((fun v => Value.list [v])^[65] (.list [])).IsWritable ∧
      decodePrefix (((fun v => Value.list [v])^[65] (.list [])).encode ++ [120]) =
        .error .nestingTooDeep := by
  have hshallow : (Value.dict [([], .int Int64.minValue),
      ([101, 58], .list [.bytes [], .dict []])]).IsWritable := by
    simp [Value.IsWritable, ItemsWritable, EntriesWritable, UInt64.size]
  have hdeep : ((fun v => Value.list [v])^[65] (.list [])).IsWritable := by
    simp [Value.IsWritable, ItemsWritable]
  refine ⟨⟨hshallow, (decodePrefix_encode_append hshallow _).1 ?_⟩,
    hdeep, (decodePrefix_encode_append hdeep _).2 ?_⟩
  · simp [Value.height, itemsHeight, entriesHeight]
  · simp [Value.height, itemsHeight]

end Bencode
end PeerLink
