import PeerLink.Connection.Opening
import PeerLink.Proofs.Bencode.Dict

/-!
# The texts that spell an info hash

`Hex.encode` writes lowercase digits, and digits of either case are read.  A text spells an
info hash exactly if it is the spelling of this info hash once it is in lower case: there
are no other digits, nothing may stand around them, and nothing is left out.
-/

namespace PeerLink
namespace Hex

/-- What the two digits of a byte are worth. -/
def halves (byte : UInt8) : List Nat := [byte.toNat / 16, byte.toNat % 16]

/-- The character of a code below 128. -/
def character (code : UInt8) : Char := Char.ofNat code.toNat

theorem encode_eq (bytes : Bytes) :
    encode bytes = String.ofList ((bytes.flatMap halves).map digit) := by
  rw [List.map_flatMap]
  rfl

theorem lt_of_mem_halves {bytes : Bytes} {value : Nat} (h : value ∈ bytes.flatMap halves) :
    value < 16 := by
  obtain ⟨byte, -, hvalue⟩ := List.mem_flatMap.mp h
  have hbyte := byte.toNat_lt
  rcases List.mem_pair.mp hvalue with rfl | rfl
  · omega
  · omega

/-- The digits are those of the lowercase spelling, but for their case. -/
theorem value?_eq_some_iff {code : UInt8} {value : Nat} (h : value < 16) :
    value? code = some value ↔ code < 128 ∧ (character code).toLower = digit value := by
  have hall : ∀ (code : Fin 256) (value : Fin 16),
      value? (UInt8.ofFin code) = some value.val ↔
        UInt8.ofFin code < 128 ∧ (character (UInt8.ofFin code)).toLower = digit value.val := by
    decide +kernel
  exact hall code.toFin ⟨value, h⟩

theorem toNat_digit_lt {value : Nat} (h : value < 16) : (digit value).toNat < 128 := by
  have hall : ∀ value : Fin 16, (digit value.val).toNat < 128 := by decide
  exact hall ⟨value, h⟩

theorem lt_of_value? {code : UInt8} {value : Nat} (h : value? code = some value) : value < 16 := by
  have hall : ∀ code : Fin 256, ∀ value ∈ value? (UInt8.ofFin code), value < 16 := by
    decide +kernel
  exact hall code.toFin value h

/-- Two digits make the byte whose halves they are worth. -/
theorem ofNat_eq_iff_halves {high low : Nat} (hhigh : high < 16) (hlow : low < 16) (byte : UInt8) :
    UInt8.ofNat (high * 16 + low) = byte ↔ high = byte.toNat / 16 ∧ low = byte.toNat % 16 := by
  have hbyte := byte.toNat_lt
  rw [← UInt8.toNat_inj, UInt8.toNat_ofNat']
  omega

theorem decodeFrom_eq_ok_iff (start : Nat) {digits bytes : Bytes}
    (hlength : digits.length = 2 * bytes.length) :
    decodeFrom start digits = .ok bytes ↔
      digits.map value? = (bytes.flatMap halves).map some := by
  induction bytes generalizing start digits with
  | nil =>
    obtain rfl := List.length_eq_zero_iff.mp hlength
    simp [decodeFrom]
  | cons byte bytes ih =>
    obtain ⟨high, low, rest, rfl⟩ : ∃ high low rest, digits = high :: low :: rest := by
      match digits, hlength with
      | [], h => simp at h
      | [_], h => simp at h; omega
      | high :: low :: rest, _ => exact ⟨high, low, rest, rfl⟩
    have hrest : rest.length = 2 * bytes.length := by
      simp at hlength
      omega
    rw [decodeFrom]
    cases hhigh : value? high with
    | none => simp [hhigh, halves]
    | some h =>
      cases hlow : value? low with
      | none => simp [hhigh, hlow, halves]
      | some l =>
        have hh := lt_of_value? hhigh
        have hl := lt_of_value? hlow
        have hpair := ofNat_eq_iff_halves hh hl byte
        have hlater := ih (start + 2) hrest
        cases hdecoded : decodeFrom (start + 2) rest with
        | error bad =>
          rw [hdecoded] at hlater
          simp [hhigh, hlow, halves, ← hlater]
        | ok decoded =>
          rw [hdecoded] at hlater
          simp only [Except.ok.injEq] at hlater
          simp only [List.map_cons, hhigh, hlow, List.flatMap_cons, halves, List.cons_append,
            List.nil_append, List.cons.injEq, Option.some.injEq, Except.ok.injEq, ← hlater, hpair,
            and_assoc]

/-- Reading stops at a code that is no digit. -/
theorem of_decodeFrom_eq_error {start : Nat} {digits : Bytes} {bad : BadDigit}
    (h : decodeFrom start digits = .error bad) :
    start ≤ bad.position ∧ digits[bad.position - start]? = some bad.code ∧
      value? bad.code = none := by
  fun_induction decodeFrom start digits with
  | case1 start high low rest hhigh =>
    obtain rfl := Except.error.inj h
    exact ⟨Nat.le_refl _, by simp, hhigh⟩
  | case2 start high low rest value hlow hhigh =>
    obtain rfl := Except.error.inj h
    exact ⟨Nat.le_succ _, by simp, hlow⟩
  | case3 start high low rest _ _ _ _ bad' hrest ih =>
    obtain rfl := Except.error.inj h
    obtain ⟨hstart, hcode, hvalue⟩ := ih hrest
    have hplace : bad'.position - start = bad'.position - (start + 2) + 2 := by omega
    refine ⟨by omega, ?_, hvalue⟩
    rw [hplace]
    exact hcode
  | case4 => cases h
  | case5 => cases h

theorem map_value?_eq_iff {codes : Bytes} {values : List Nat} (h : ∀ value ∈ values, value < 16) :
    codes.map value? = values.map some ↔
      (∀ code ∈ codes, code < 128) ∧
        codes.map (fun code => (character code).toLower) = values.map digit := by
  induction codes generalizing values with
  | nil =>
    cases values with
    | nil => simp
    | cons value values => simp
  | cons code codes ih =>
    cases values with
    | nil => simp
    | cons value values =>
      obtain ⟨hvalue, hvalues⟩ := List.forall_mem_cons.mp h
      rw [List.map_cons, List.map_cons, List.cons.injEq, value?_eq_some_iff hvalue, ih hvalues,
        List.forall_mem_cons, List.map_cons, List.map_cons, List.cons.injEq]
      exact and_and_and_comm

theorem toNat_character (code : UInt8) : (character code).toNat = code.toNat := by
  have hvalid : code.toNat.isValidChar := by
    have := code.toNat_lt
    exact .inl (by omega)
  rw [character, Char.ofNat, dif_pos hvalid]
  rfl

end Hex

/-! ## Texts of codes below 128 -/

namespace Bytes

theorem ofText_eq_flatMap (text : String) :
    ofText text = text.toList.flatMap String.utf8EncodeChar := by
  have htext : text.toUTF8 = text.toList.utf8Encode := by
    rw [← String.toByteArray_ofList, String.ofList_toList]
    rfl
  rw [ofText, htext, List.utf8Encode, List.data_toByteArray]

theorem ofText_eq_map {text : String} (h : ∀ c ∈ text.toList, c.toNat < 128) :
    ofText text = text.toList.map fun c => UInt8.ofNat c.toNat := by
  have hsingle : ∀ c ∈ text.toList, String.utf8EncodeChar c = [UInt8.ofNat c.toNat] := by
    intro c hc
    have hsize : c.utf8Size = 1 := by
      rw [Char.utf8Size_eq_one_iff, UInt32.le_iff_toNat_le]
      exact Nat.le_of_lt_succ (h c hc)
    rw [String.utf8EncodeChar_eq_singleton hsize]
    rfl
  rw [ofText_eq_flatMap, List.flatMap_congr hsingle]
  exact List.map_eq_flatMap.symm

end Bytes

theorem Hex.ofText_eq_iff {text : String} {codes : Bytes} (h : ∀ code ∈ codes, code < 128) :
    Bytes.ofText text = codes ↔ text.toList = codes.map character := by
  have hback : Bytes.ofText (String.ofList (codes.map character)) = codes := by
    rw [Bytes.ofText_eq_map, String.toList_ofList, List.map_map]
    · apply List.map_id''
      intro code
      rw [Function.comp, toNat_character, UInt8.ofNat_toNat]
    · intro c hc
      rw [String.toList_ofList] at hc
      obtain ⟨code, hcode, rfl⟩ := List.mem_map.mp hc
      rw [toNat_character]
      exact h code hcode
  constructor
  · intro htext
    rw [Bytes.ofText_injective (htext.trans hback.symm), String.toList_ofList]
  · intro htext
    rw [← hback, ← htext, String.ofList_toList]

namespace Hex

theorem toNat_lt_of_toLower {c : Char} (h : c.toLower.toNat < 128) : c.toNat < 128 := by
  by_cases hupper : c.val ≥ 'A'.val ∧ c.val ≤ 'Z'.val
  · have := UInt32.le_iff_toNat_le.mp hupper.2
    exact Nat.lt_of_le_of_lt this (by decide)
  · have hsame : c.toLower = c := dif_neg hupper
    rw [hsame] at h
    exact h

theorem map_value?_ofText_eq_iff {text : String} {bytes : Bytes} :
    (Bytes.ofText text).map value? = (bytes.flatMap halves).map some ↔
      text.toLower = encode bytes := by
  have hsmall : ∀ value ∈ bytes.flatMap halves, value < 16 := fun _ => lt_of_mem_halves
  have hmap : text.toLower = text.map Char.toLower := rfl
  have hlower : text.toLower = encode bytes ↔
      text.toList.map Char.toLower = (bytes.flatMap halves).map digit := by
    rw [← String.toList_inj, encode_eq, String.toList_ofList, hmap, String.toList_map]
  rw [map_value?_eq_iff hsmall, hlower]
  constructor
  · rintro ⟨hascii, hdigits⟩
    rw [(ofText_eq_iff hascii).mp rfl, List.map_map]
    exact hdigits
  · intro hdigits
    have hchars : ∀ c ∈ text.toList, c.toNat < 128 := by
      intro c hc
      have hmem : c.toLower ∈ (bytes.flatMap halves).map digit := by
        rw [← hdigits]
        exact List.mem_map_of_mem hc
      obtain ⟨value, hvalue, hdigit⟩ := List.mem_map.mp hmem
      apply toNat_lt_of_toLower
      rw [← hdigit]
      exact toNat_digit_lt (hsmall value hvalue)
    have hascii : ∀ code ∈ Bytes.ofText text, code < 128 := by
      intro code hcode
      rw [Bytes.ofText_eq_map hchars] at hcode
      obtain ⟨c, hc, rfl⟩ := List.mem_map.mp hcode
      have := hchars c hc
      rw [UInt8.lt_iff_toNat_lt, UInt8.toNat_ofNat']
      change c.toNat % 256 < 128
      omega
    refine ⟨hascii, ?_⟩
    rw [← hdigits, (ofText_eq_iff hascii).mp rfl, List.map_map]
    rfl

end Hex

/-! ## Arguments of a handshake -/

/-- A text is read as an info hash exactly if it spells it with digits of either case. -/
theorem Digest.parse_eq_ok_iff {text : String} {hash : Digest} :
    parse text = .ok hash ↔ text.toLower = Hex.encode hash.toList := by
  rw [← Hex.map_value?_ofText_eq_iff]
  have hdecode : (Bytes.ofText text).length = 40 →
      (Hex.decode (Bytes.ofText text) = .ok hash.toList ↔
        (Bytes.ofText text).map Hex.value? = (hash.toList.flatMap Hex.halves).map some) := by
    intro hlength
    apply Hex.decodeFrom_eq_ok_iff
    rw [hlength, Vector.length_toList]
  constructor
  · intro h
    rw [parse] at h
    split at h
    · next hlength =>
      rw [← hdecode hlength]
      split at h
      · cases h
      · next bytes hbytes =>
        obtain rfl := Except.ok.inj h
        exact hbytes
    · cases h
  · intro h
    have hlength : (Bytes.ofText text).length = 40 := by
      have hlengths := congrArg List.length h
      rw [List.length_map, List.length_map, List.length_flatMap] at hlengths
      simpa [Hex.halves] using hlengths
    have hdecoded := (hdecode hlength).mpr h
    rw [parse]
    rw [dif_pos hlength]
    split
    · next bad hbad =>
      rw [hdecoded] at hbad
      cases hbad
    · next bytes hbytes =>
      obtain rfl := Except.ok.inj (hdecoded.symm.trans hbytes)
      rfl

theorem Digest.of_parse_eq_error {text : String} {failure : Failure}
    (h : parse text = .error failure) :
    (Bytes.ofText text).length ≠ 40 ∧
        failure = .invalidArgument (.infoHashLength (Bytes.ofText text).length) ∨
      ∃ bad : Hex.BadDigit, (Bytes.ofText text)[bad.position]? = some bad.code ∧
        Hex.value? bad.code = none ∧ failure = .invalidArgument (.infoHashDigit bad) := by
  rw [parse] at h
  split at h
  · split at h
    · next bad hbad =>
      obtain ⟨-, hcode, hvalue⟩ := Hex.of_decodeFrom_eq_error hbad
      exact .inr ⟨bad, hcode, hvalue, (Except.error.inj h).symm⟩
    · cases h
  · next hlength => exact .inl ⟨hlength, (Except.error.inj h).symm⟩

theorem PeerId.ofBytes_eq_ok_iff {bytes : Bytes} {id : PeerId} :
    ofBytes bytes = .ok id ↔ id.bytes.toList = bytes := by
  constructor
  · intro h
    rw [ofBytes] at h
    split at h
    · next field hfield =>
      obtain rfl := Except.ok.inj h
      rw [Bytes.toVector?] at hfield
      split at hfield
      · obtain rfl := Option.some.inj hfield
        rfl
      · cases hfield
    · cases h
  · rintro rfl
    have hfield : Bytes.toVector? 20 id.bytes.toList = some id.bytes := by
      rw [Bytes.toVector?, dif_pos id.bytes.length_toList]
      rfl
    rw [ofBytes, hfield]

theorem PeerId.of_ofBytes_eq_error {bytes : Bytes} {failure : Failure}
    (h : ofBytes bytes = .error failure) :
    bytes.length ≠ 20 ∧ failure = .invalidArgument (.peerIdLength bytes.length) := by
  rw [ofBytes] at h
  split at h
  · cases h
  · next hfield =>
    refine ⟨?_, (Except.error.inj h).symm⟩
    intro hlength
    rw [Bytes.toVector?, dif_pos hlength] at hfield
    cases hfield

end PeerLink
