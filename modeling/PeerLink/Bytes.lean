/-!
# Byte strings

Everything that crosses the wire is a byte string.  This module holds the
byte strings themselves, the big-endian words they carry, and the ways to cut
a byte string at a position it may be too short for.  The main statement is
`splitAt?_eq_some_iff`: a cut succeeds exactly when the string has that many
bytes, and nothing is lost by it.
-/

namespace PeerLink

/-- A string of octets, in wire order. -/
abbrev Bytes := List UInt8

namespace Bytes

/-- The UTF-8 form of a text. -/
def ofText (text : String) : Bytes := text.toUTF8.data.toList

/-- The text that these bytes are the UTF-8 form of, if they are well formed. -/
def toText? (bytes : Bytes) : Option String := String.fromUTF8? ⟨bytes.toArray⟩

/-- Reading the UTF-8 form of a text gives the text back. -/
@[simp]
theorem toText?_ofText (text : String) : toText? (ofText text) = some text := by
  have h : (⟨(ofText text).toArray⟩ : ByteArray) = text.toUTF8 := by
    simp [ofText]
  rw [toText?, h, String.fromUTF8?]
  split
  · rfl
  · next hv => exact absurd text.isValidUTF8 hv

/-- Bytes that read as a text are the UTF-8 form of that text. -/
theorem ofText_of_toText? {bytes : Bytes} {text : String} (h : toText? bytes = some text) :
    ofText text = bytes := by
  unfold toText? String.fromUTF8? at h
  split at h
  · simp only [Option.some.injEq] at h
    subst h
    rfl
  · cases h

/-- Whether there are at least `n` bytes.  Looks at no more than `n` of them. -/
def hasAtLeast : Nat → Bytes → Bool
  | 0, _ => true
  | _ + 1, [] => false
  | n + 1, _ :: rest => hasAtLeast n rest

theorem hasAtLeast_iff (n : Nat) (bytes : Bytes) :
    hasAtLeast n bytes = true ↔ n ≤ bytes.length := by
  fun_induction hasAtLeast n bytes with
  | case1 => simp
  | case2 => simp
  | case3 n _ rest ih => simpa using ih

/-- The first `n` bytes and the others, unless there are fewer than `n`. -/
def splitAt? (n : Nat) (bytes : Bytes) : Option (Bytes × Bytes) :=
  if hasAtLeast n bytes then some (bytes.take n, bytes.drop n) else none

theorem splitAt?_eq_some_iff {n : Nat} {bytes front back : Bytes} :
    splitAt? n bytes = some (front, back) ↔
      front.length = n ∧ bytes = front ++ back := by
  constructor
  · intro h
    unfold splitAt? at h
    split at h
    · next hn =>
      rw [hasAtLeast_iff] at hn
      simp only [Option.some.injEq, Prod.mk.injEq] at h
      obtain ⟨rfl, rfl⟩ := h
      simp [List.length_take, Nat.min_eq_left hn]
    · cases h
  · rintro ⟨rfl, rfl⟩
    have hn : hasAtLeast front.length (front ++ back) = true := by
      rw [hasAtLeast_iff]
      simp
    simp [splitAt?, hn]

theorem splitAt?_eq_none_iff {n : Nat} {bytes : Bytes} :
    splitAt? n bytes = none ↔ bytes.length < n := by
  unfold splitAt?
  split
  · next hn =>
    rw [hasAtLeast_iff] at hn
    simp
    omega
  · next hn =>
    rw [hasAtLeast_iff] at hn
    simp
    omega

/-- The bytes as a field of fixed width, if there are exactly that many. -/
def toVector? (n : Nat) (bytes : Bytes) : Option (Vector UInt8 n) :=
  if h : bytes.length = n then some ⟨bytes.toArray, by simpa using h⟩ else none

/-- A field of fixed width off the front, and what follows it. -/
def field? (n : Nat) (bytes : Bytes) : Option (Vector UInt8 n × Bytes) := do
  let (front, rest) ← splitAt? n bytes
  let field ← toVector? n front
  return (field, rest)

/-- A field that was written reads back, whatever follows it. -/
@[simp]
theorem field?_toList_append {n : Nat} (field : Vector UInt8 n) (rest : Bytes) :
    field? n (field.toList ++ rest) = some (field, rest) := by
  have hs : splitAt? n (field.toList ++ rest) = some (field.toList, rest) :=
    splitAt?_eq_some_iff.mpr ⟨field.length_toList, rfl⟩
  have hv : toVector? n field.toList = some field := by
    unfold toVector?
    rw [dif_pos field.length_toList]
    rfl
  simp [field?, hs, hv]

/-- The fixed-width records that the bytes hold one after another.  A last
record that is cut short is dropped. -/
def records (n : Nat) (bytes : Bytes) : List (Vector UInt8 n) :=
  if _h : 0 < n then
    match _hf : field? n bytes with
    | none => []
    | some (record, rest) => record :: records n rest
  else []
termination_by bytes.length
decreasing_by
  simp only [field?, Option.bind_eq_bind, Option.bind_eq_some_iff] at _hf
  obtain ⟨⟨front, back⟩, hs, field, _, hr⟩ := _hf
  rw [splitAt?_eq_some_iff] at hs
  obtain ⟨hlen, rfl⟩ := hs
  simp only [Option.pure_def, Option.some.injEq, Prod.mk.injEq] at hr
  rw [← hr.2]
  simp
  omega

/-- Two bytes, most significant first. -/
def ofUInt16 (word : UInt16) : Bytes :=
  [UInt8.ofNat (word.toNat / 256), UInt8.ofNat word.toNat]

/-- Four bytes, most significant first. -/
def ofUInt32 (word : UInt32) : Bytes :=
  [UInt8.ofNat (word.toNat / 16777216), UInt8.ofNat (word.toNat / 65536),
    UInt8.ofNat (word.toNat / 256), UInt8.ofNat word.toNat]

/-- The 16-bit word that two bytes spell, most significant first. -/
def word16 (a b : UInt8) : UInt16 :=
  UInt16.ofNat (a.toNat * 256 + b.toNat)

/-- The 32-bit word that four bytes spell, most significant first. -/
def word32 (a b c d : UInt8) : UInt32 :=
  UInt32.ofNat (((a.toNat * 256 + b.toNat) * 256 + c.toNat) * 256 + d.toNat)

/-- A 16-bit word off the front, and what follows it. -/
def takeUInt16? : Bytes → Option (UInt16 × Bytes)
  | a :: b :: rest => some (word16 a b, rest)
  | _ => none

/-- A 32-bit word off the front, and what follows it. -/
def takeUInt32? : Bytes → Option (UInt32 × Bytes)
  | a :: b :: c :: d :: rest => some (word32 a b c d, rest)
  | _ => none

@[simp]
theorem length_ofUInt16 (word : UInt16) : (ofUInt16 word).length = 2 := rfl

@[simp]
theorem length_ofUInt32 (word : UInt32) : (ofUInt32 word).length = 4 := rfl

/-- Reading back a written 16-bit word gives the word, whatever follows it. -/
@[simp]
theorem takeUInt16?_ofUInt16_append (word : UInt16) (rest : Bytes) :
    takeUInt16? (ofUInt16 word ++ rest) = some (word, rest) := by
  have h : word16 (UInt8.ofNat (word.toNat / 256)) (UInt8.ofNat word.toNat) = word := by
    apply UInt16.toNat_inj.mp
    have := word.toNat_lt
    simp only [word16, UInt8.toNat_ofNat', UInt16.toNat_ofNat']
    omega
  exact congrArg (fun w => some (w, rest)) h

/-- Reading back a written 32-bit word gives the word, whatever follows it. -/
@[simp]
theorem takeUInt32?_ofUInt32_append (word : UInt32) (rest : Bytes) :
    takeUInt32? (ofUInt32 word ++ rest) = some (word, rest) := by
  have h : word32 (UInt8.ofNat (word.toNat / 16777216)) (UInt8.ofNat (word.toNat / 65536))
      (UInt8.ofNat (word.toNat / 256)) (UInt8.ofNat word.toNat) = word := by
    apply UInt32.toNat_inj.mp
    have := word.toNat_lt
    simp only [word32, UInt8.toNat_ofNat', UInt32.toNat_ofNat']
    omega
  exact congrArg (fun w => some (w, rest)) h

end Bytes
end PeerLink
