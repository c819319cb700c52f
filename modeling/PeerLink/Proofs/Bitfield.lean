import Mathlib.Data.Nat.Basic
import PeerLink.Bitfield

/-!
# What constructors and operations do to the pieces of a bitfield

A bitfield that is well sized is determined by its size and by the pieces that are there.
All constructors give well-sized bitfields, all operations keep them so, and for each of
them a lemma says which pieces are there afterwards.
-/

namespace PeerLink
namespace Bitfield

/-! ## Bits of a run of bytes -/

/-- Whether the bit for a piece is set, whether or not there is such a piece. -/
def bitAt (bytes : Array UInt8) (index : Nat) : Bool :=
  bytes[index / 8]?.any fun byte => Octet.bit byte (index % 8)

theorem has_eq (field : Bitfield) (index : Nat) :
    field.has index = (decide (index < field.size) && bitAt field.bytes index) := rfl

theorem bitAt_of_size_le {bytes : Array UInt8} {index : Nat} (h : bytes.size ≤ index / 8) :
    bitAt bytes index = false := by
  rw [bitAt, Array.getElem?_eq_none h]
  rfl

theorem size_take (n : Nat) (bytes : Array UInt8) : (bytes.take n).size = min n bytes.size := by
  simp [Array.take]

@[simp]
theorem size_padTo (n : Nat) (bytes : Array UInt8) : (padTo n bytes).size = n := by
  rw [padTo, Array.size_append, size_take, Array.size_replicate]
  omega

theorem bitAt_padTo (n : Nat) (bytes : Array UInt8) (index : Nat) :
    bitAt (padTo n bytes) index = (decide (index / 8 < n) && bitAt bytes index) := by
  by_cases hn : index / 8 < n
  · by_cases hbytes : index / 8 < bytes.size
    · have hboth : index / 8 < min n bytes.size := Nat.lt_min.mpr ⟨hn, hbytes⟩
      have hfront : (padTo n bytes)[index / 8]? = bytes[index / 8]? := by
        rw [padTo, Array.getElem?_append, size_take, if_pos hboth, Array.take,
          Array.getElem?_extract, Nat.sub_zero, if_pos hboth, Nat.zero_add]
      rw [decide_eq_true hn, Bool.true_and, bitAt, bitAt, hfront]
    · have hback : (padTo n bytes)[index / 8]? = some 0 := by
        rw [padTo, Array.getElem?_append, size_take, if_neg (by omega), Array.getElem?_replicate,
          if_pos (by omega)]
      have hnone := bitAt_of_size_le (Nat.not_lt.mp hbytes)
      rw [hnone, Bool.and_false, bitAt, hback]
      simp
  · have hnone : bitAt (padTo n bytes) index = false :=
      bitAt_of_size_le (by rw [size_padTo]; omega)
    simp [hnone, hn]

theorem bitAt_replicate_zero (n index : Nat) : bitAt (Array.replicate n 0) index = false := by
  rw [bitAt, Array.getElem?_replicate]
  split <;> simp

theorem bitAt_replicate_ones (n index : Nat) :
    bitAt (Array.replicate n 0xFF) index = decide (index / 8 < n) := by
  have hones : ∀ k, k < 8 → Octet.bit 0xFF k = true := by decide
  have hbit := hones (index % 8) (Nat.mod_lt _ (by decide))
  rw [bitAt, Array.getElem?_replicate]
  split
  · next hn => simp [hbit, hn]
  · next hn => simp [hn]

theorem bitAt_modify (bytes : Array UInt8) (place : Nat) (change : UInt8 → UInt8) (index : Nat) :
    bitAt (bytes.modify place change) index =
      if place = index / 8 then
        bytes[index / 8]?.any fun byte => Octet.bit (change byte) (index % 8)
      else bitAt bytes index := by
  rw [bitAt, Array.getElem?_modify]
  split
  · rw [Option.any_map]
  · rfl

/-! ## Well-sized bitfields -/

theorem lt_byteCount {index size : Nat} (h : index < size) : index / 8 < byteCount size := by
  rw [byteCount]
  omega

theorem byteCount_mul_eight (count : Nat) : byteCount (count * 8) = count := by
  rw [byteCount]
  omega

namespace WellSized

variable {field : Bitfield}

theorem bitAt_eq_false (h : field.WellSized) {index : Nat} (hindex : field.size ≤ index) :
    bitAt field.bytes index = false :=
  h.spare_clear index hindex

/-- In a well-sized bitfield, the bits and the pieces are the same. -/
theorem bitAt_eq_has (h : field.WellSized) (index : Nat) :
    bitAt field.bytes index = field.has index := by
  rw [has_eq]
  by_cases hindex : index < field.size
  · simp [hindex]
  · simp [hindex, h.bitAt_eq_false (Nat.not_lt.mp hindex)]

end WellSized

/-- Two well-sized bitfields with the same pieces are the same. -/
theorem eq_of_has {first second : Bitfield} (hfirst : first.WellSized)
    (hsecond : second.WellSized) (hsize : first.size = second.size)
    (hhas : ∀ index, index < first.size → first.has index = second.has index) :
    first = second := by
  have hbits : ∀ index, bitAt first.bytes index = bitAt second.bytes index := by
    intro index
    rw [hfirst.bitAt_eq_has, hsecond.bitAt_eq_has]
    by_cases hindex : index < first.size
    · exact hhas index hindex
    · have hindex' : ¬ index < second.size := by rwa [← hsize]
      rw [has_eq, has_eq, decide_eq_false hindex, decide_eq_false hindex', Bool.false_and,
        Bool.false_and]
  have hbytes : first.bytes = second.bytes := by
    have hcount : first.bytes.size = second.bytes.size := by
      rw [hfirst.size_bytes, hsecond.size_bytes, hsize]
    apply Array.ext hcount
    intro place hplace hplace'
    apply Octet.ext
    intro k hk
    have hbit := hbits (place * 8 + k)
    have hdiv : (place * 8 + k) / 8 = place := by omega
    have hmod : (place * 8 + k) % 8 = k := by omega
    rw [bitAt, bitAt, hdiv, hmod, Array.getElem?_eq_getElem hplace,
      Array.getElem?_eq_getElem hplace'] at hbit
    exact hbit
  obtain ⟨bytes, size⟩ := first
  obtain ⟨bytes', size'⟩ := second
  exact Bitfield.mk.injEq .. ▸ ⟨hbytes, hsize⟩

/-- Trimming drops the bits that stand for no piece, and nothing else. -/
theorem bitAt_trim {field : Bitfield} (h : field.bytes.size = byteCount field.size)
    (index : Nat) :
    bitAt (trim field).bytes index =
      (decide (index < field.size) && bitAt field.bytes index) := by
  have hbehind : byteCount field.size ≤ index / 8 → bitAt field.bytes index = false := by
    intro hindex
    exact bitAt_of_size_le (h ▸ hindex)
  rw [trim]
  split
  · next hwhole =>
    by_cases hindex : index < field.size
    · simp [hindex]
    · have hnone := hbehind (by rw [byteCount]; omega)
      simp [hindex, hnone]
  · next hpart =>
    dsimp only
    rw [bitAt_modify]
    split
    · next hlast =>
      have hlow : ∀ byte, Octet.bit (Octet.low byte (field.size % 8)) (index % 8) =
          (decide (index < field.size) && Octet.bit byte (index % 8)) := by
        intro byte
        rw [Octet.bit_low]
        congr 1
        rw [decide_eq_decide]
        omega
      rw [bitAt]
      cases field.bytes[index / 8]? with
      | none => simp
      | some byte => simp [hlow]
    · next hother =>
      by_cases hindex : index < field.size
      · simp [hindex]
      · have hnone := hbehind (by rw [byteCount]; omega)
        simp [hindex, hnone]

@[simp]
theorem size_trim (field : Bitfield) : (trim field).size = field.size := by
  rw [trim]
  split <;> rfl

theorem size_bytes_trim (field : Bitfield) : (trim field).bytes.size = field.bytes.size := by
  rw [trim]
  split
  · rfl
  · exact Array.size_modify

theorem wellSized_trim {field : Bitfield} (h : field.bytes.size = byteCount field.size) :
    (trim field).WellSized := by
  constructor
  · rw [size_bytes_trim, size_trim, h]
  · intro index hindex
    rw [size_trim] at hindex
    have hbit := bitAt_trim h index
    rw [decide_eq_false (Nat.not_lt.mpr hindex), Bool.false_and] at hbit
    exact hbit

theorem has_trim {field : Bitfield} (h : field.bytes.size = byteCount field.size) (index : Nat) :
    (trim field).has index = field.has index := by
  rw [has_eq, size_trim, bitAt_trim h, has_eq]
  cases decide (index < field.size) <;> simp

/-! ## Constructors -/

theorem wellSized_new (size : Nat) : (new size).WellSized := by
  constructor
  · exact Array.size_replicate
  · intro index _
    exact bitAt_replicate_zero _ index

@[simp]
theorem has_new (size index : Nat) : (new size).has index = false := by
  rw [has_eq]
  exact (congrArg _ (bitAt_replicate_zero _ index)).trans (Bool.and_false _)

theorem wellSized_full (size : Nat) : (full size).WellSized :=
  wellSized_trim Array.size_replicate

@[simp]
theorem size_full (size : Nat) : (full size).size = size := size_trim _

@[simp]
theorem has_full (size index : Nat) : (full size).has index = decide (index < size) := by
  rw [full, has_trim Array.size_replicate, has_eq, bitAt_replicate_ones]
  by_cases hindex : index < size
  · simp [hindex, lt_byteCount hindex]
  · simp [hindex]

theorem wellSized_ofPayload (payload : Bytes) : (ofPayload payload).WellSized := by
  constructor
  · change payload.toArray.size = byteCount (payload.length * 8)
    rw [byteCount_mul_eight, List.size_toArray]
  · intro index hindex
    have hsize : payload.toArray.size ≤ index / 8 := by
      change payload.length * 8 ≤ index at hindex
      rw [List.size_toArray]
      omega
    exact bitAt_of_size_le hsize

theorem wellSized_ofBytes (bytes : Bytes) (size : Nat) : (ofBytes bytes size).WellSized :=
  wellSized_trim (size_padTo _ _)

/-! ## Operations -/

theorem wellSized_resize (field : Bitfield) (size : Nat) : (field.resize size).WellSized :=
  wellSized_trim (size_padTo _ _)

@[simp]
theorem size_resize (field : Bitfield) (size : Nat) : (field.resize size).size = size :=
  size_trim _

/-- Resizing drops the pieces behind the new end, and keeps all others. -/
theorem has_resize {field : Bitfield} (h : field.WellSized) (size index : Nat) :
    (field.resize size).has index = (decide (index < size) && field.has index) := by
  rw [resize, has_trim (size_padTo _ _), has_eq]
  dsimp only
  rw [bitAt_padTo, h.bitAt_eq_has]
  by_cases hindex : index < size
  · simp [hindex, lt_byteCount hindex]
  · simp [hindex]

@[simp]
theorem size_set (field : Bitfield) (piece : Nat) : (field.set piece).size = field.size := by
  rw [set]
  split <;> rfl

theorem bitAt_set {field : Bitfield} {piece : Nat} (hpiece : piece < field.size) (index : Nat) :
    bitAt (field.set piece).bytes index =
      (bitAt field.bytes index ||
        decide (index = piece) && decide (index / 8 < field.bytes.size)) := by
  rw [set, if_pos hpiece]
  dsimp only
  rw [bitAt_modify]
  split
  · next hplace =>
    rw [bitAt]
    cases hbyte : field.bytes[index / 8]? with
    | none =>
      have hsize := Array.getElem?_eq_none_iff.mp hbyte
      simp [Nat.not_lt.mpr hsize]
    | some byte =>
      obtain ⟨hsize, -⟩ := Array.getElem?_eq_some_iff.mp hbyte
      have hsame : (index % 8 = piece % 8) = (index = piece) := by
        apply propext
        omega
      simp [Octet.bit_setBit (Nat.mod_lt piece (by decide : 0 < 8)), hsize, hsame]
  · next hplace =>
    have hne : index ≠ piece := by
      rintro rfl
      exact hplace rfl
    simp [hne]

theorem WellSized.set {field : Bitfield} (h : field.WellSized) (piece : Nat) :
    (field.set piece).WellSized := by
  by_cases hpiece : piece < field.size
  · constructor
    · rw [size_set, ← h.size_bytes, Bitfield.set, if_pos hpiece]
      exact Array.size_modify
    · intro index hindex
      rw [size_set] at hindex
      have hbit := bitAt_set hpiece index
      have hne : index ≠ piece := by omega
      rw [h.bitAt_eq_false hindex, decide_eq_false hne, Bool.false_and, Bool.or_false] at hbit
      exact hbit
  · rw [Bitfield.set, if_neg hpiece]
    exact h

/-- Adding a piece adds this piece, if there is such a one. -/
theorem has_set {field : Bitfield} (h : field.WellSized) (piece index : Nat) :
    (field.set piece).has index =
      (field.has index || decide (index = piece) && decide (index < field.size)) := by
  by_cases hpiece : piece < field.size
  · rw [← (h.set piece).bitAt_eq_has, bitAt_set hpiece, h.bitAt_eq_has, h.size_bytes]
    by_cases hsame : index = piece
    · subst hsame
      simp [hpiece, lt_byteCount hpiece]
    · simp [hsame]
  · rw [Bitfield.set, if_neg hpiece]
    by_cases hsame : index = piece
    · subst hsame
      simp [hpiece]
    · simp [hsame]

@[simp]
theorem size_clear (field : Bitfield) (piece : Nat) : (field.clear piece).size = field.size := by
  rw [clear]
  split <;> rfl

theorem bitAt_clear {field : Bitfield} {piece : Nat} (hpiece : piece < field.size)
    (index : Nat) :
    bitAt (field.clear piece).bytes index =
      (bitAt field.bytes index && decide (index ≠ piece)) := by
  rw [clear, if_pos hpiece]
  dsimp only
  rw [bitAt_modify]
  split
  · next hplace =>
    have hsame : (index % 8 ≠ piece % 8) = (index ≠ piece) := by
      apply propext
      omega
    have hbit : ∀ byte, Octet.bit (Octet.clearBit byte (piece % 8)) (index % 8) =
        (Octet.bit byte (index % 8) && decide (index ≠ piece)) := by
      intro byte
      rw [Octet.bit_clearBit (Nat.mod_lt _ (by decide)) (Nat.mod_lt _ (by decide))]
      congr 1
      rw [decide_eq_decide]
      exact iff_of_eq hsame
    rw [bitAt]
    cases field.bytes[index / 8]? with
    | none => rfl
    | some byte => exact hbit byte
  · next hplace =>
    have hne : index ≠ piece := by
      rintro rfl
      exact hplace rfl
    simp [hne]

theorem WellSized.clear {field : Bitfield} (h : field.WellSized) (piece : Nat) :
    (field.clear piece).WellSized := by
  by_cases hpiece : piece < field.size
  · constructor
    · rw [size_clear, ← h.size_bytes, Bitfield.clear, if_pos hpiece]
      exact Array.size_modify
    · intro index hindex
      rw [size_clear] at hindex
      have hbit := bitAt_clear hpiece index
      rw [h.bitAt_eq_false hindex, Bool.false_and] at hbit
      exact hbit
  · rw [Bitfield.clear, if_neg hpiece]
    exact h

/-- Removing a piece removes this piece. -/
theorem has_clear {field : Bitfield} (h : field.WellSized) (piece index : Nat) :
    (field.clear piece).has index = (field.has index && decide (index ≠ piece)) := by
  by_cases hpiece : piece < field.size
  · rw [← (h.clear piece).bitAt_eq_has, bitAt_clear hpiece, h.bitAt_eq_has]
  · rw [Bitfield.clear, if_neg hpiece]
    by_cases hsame : index = piece
    · subst hsame
      simp [has_eq, hpiece]
    · simp [hsame]

end Bitfield
end PeerLink
