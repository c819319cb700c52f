import Mathlib.Data.Finset.Sort
import Mathlib.Data.List.GetD
import Mathlib.Data.List.Induction
import PeerLink.Proofs.Bitfield

/-!
# Bitfields as sets of pieces

A `PieceSet` is what a bitfield stands for: how many pieces there are and a finite set
of those among them that are there.  A bitfield `Represents` one if it is well sized and
has exactly the pieces of the set.  All ways to make a bitfield represent the set that
they should, and all ways to change one change the set alike (`Represents.edit`), so the
questions that a bitfield answers are questions about the set, at every point of every
history: `represents_of_edits`.
-/

namespace PeerLink

/-- A finite set of pieces out of the first `size`. -/
structure PieceSet where
  size : Nat
  pieces : Finset Nat
  /-- There are no pieces behind the last one. -/
  lt_size : ∀ piece ∈ pieces, piece < size

namespace Bitfield

/-- The ways to make a bitfield. -/
inductive Origin where
  | new (size : Nat)
  | full (size : Nat)
  | ofBytes (bytes : Bytes) (size : Nat)
  | ofPayload (payload : Bytes)

/-- The ways to change a bitfield. -/
inductive Edit where
  | set (piece : Nat)
  | clear (piece : Nat)
  | resize (size : Nat)

/-- The bitfield that is made. -/
def Origin.field : Origin → Bitfield
  | .new size => .new size
  | .full size => .full size
  | .ofBytes bytes size => .ofBytes bytes size
  | .ofPayload payload => .ofPayload payload

/-- The bitfield after a change. -/
def edit (field : Bitfield) : Edit → Bitfield
  | .set piece => field.set piece
  | .clear piece => field.clear piece
  | .resize size => field.resize size

end Bitfield

namespace PieceSet

/-- The pieces among the first `size` whose bit is set: bit `k` of byte `j` is that of
piece `8 * j + k`, and the bits of missing bytes are clear. -/
def announced (bytes : Bytes) (size : Nat) : PieceSet where
  size := size
  pieces := (Finset.range size).filter fun piece =>
    Octet.bit (bytes.getD (piece / 8) 0) (piece % 8) = true
  lt_size _ hpiece := Finset.mem_range.mp (Finset.mem_filter.mp hpiece).1

/-- The set that a bitfield is made for. -/
def ofOrigin : Bitfield.Origin → PieceSet
  | .new size => ⟨size, ∅, by simp⟩
  | .full size => ⟨size, Finset.range size, by simp⟩
  | .ofBytes bytes size => announced bytes size
  | .ofPayload payload => announced payload (payload.length * 8)

/-- The set after a change: one piece more, if there is such a piece, or one less, or only
the pieces in front of the new end. -/
def edit (s : PieceSet) : Bitfield.Edit → PieceSet
  | .set piece =>
    if h : piece < s.size then
      ⟨s.size, insert piece s.pieces, Finset.forall_mem_insert .. |>.mpr ⟨h, s.lt_size⟩⟩
    else s
  | .clear piece =>
    ⟨s.size, s.pieces.erase piece, fun _ h => s.lt_size _ (Finset.mem_of_mem_erase h)⟩
  | .resize size => ⟨size, s.pieces.filter (· < size), fun _ h => (Finset.mem_filter.mp h).2⟩

end PieceSet

namespace Bitfield

/-! ## Questions to a bitfield -/

theorem bitAt_toArray (bytes : Bytes) (index : Nat) :
    bitAt bytes.toArray index = Octet.bit (bytes.getD (index / 8) 0) (index % 8) := by
  rw [bitAt, List.getElem?_toArray, List.getD_eq_getElem?_getD]
  cases bytes[index / 8]? with
  | none => simp
  | some byte => rfl

theorem has_ofBytes (bytes : Bytes) (size index : Nat) :
    (ofBytes bytes size).has index = (decide (index < size) && bitAt bytes.toArray index) := by
  rw [ofBytes, has_trim (size_padTo _ _), has_eq]
  dsimp only
  rw [bitAt_padTo]
  by_cases hindex : index < size
  · simp [hindex, lt_byteCount hindex]
  · simp [hindex]

theorem has_ofPayload (payload : Bytes) (index : Nat) :
    (ofPayload payload).has index =
      (decide (index < payload.length * 8) && bitAt payload.toArray index) := rfl

/-- Counting byte by byte is counting bit by bit. -/
theorem foldl_count_eq_countP (bytes : Bytes) :
    bytes.foldl (fun total byte => total + Octet.count byte) 0 =
      (List.range (bytes.length * 8)).countP (bitAt bytes.toArray) := by
  induction bytes using List.reverseRecOn with
  | nil => rfl
  | append_singleton bytes byte ih =>
    have hearlier : ∀ index ∈ List.range (bytes.length * 8),
        (bitAt (bytes ++ [byte]).toArray index = true ↔ bitAt bytes.toArray index = true) := by
      intro index hindex
      have hplace : index / 8 < bytes.length := by
        have := List.mem_range.mp hindex
        omega
      rw [bitAt_toArray, bitAt_toArray, List.getD_append _ _ _ _ hplace]
    have hlast : ∀ k ∈ List.range 8,
        (bitAt (bytes ++ [byte]).toArray (bytes.length * 8 + k) = true ↔
          Octet.bit byte k = true) := by
      intro k hk
      have hk := List.mem_range.mp hk
      have hdiv : (bytes.length * 8 + k) / 8 = bytes.length := by omega
      have hmod : (bytes.length * 8 + k) % 8 = k := by omega
      rw [bitAt_toArray, hdiv, hmod, List.getD_append_right _ _ _ _ (Nat.le_refl _), Nat.sub_self]
      rfl
    rw [List.foldl_concat, ih, List.length_append, List.length_singleton, Nat.add_mul, Nat.one_mul,
      List.range_add, List.countP_append, List.countP_map, List.countP_congr hearlier,
      Octet.count, ← List.countP_congr hlast]
    rfl

theorem mem_available {field : Bitfield} {index : Nat} :
    index ∈ field.available ↔ field.has index = true := by
  rw [available, List.mem_filter, List.mem_range, and_iff_right_iff_imp, has_eq]
  intro h
  simp only [Bool.and_eq_true, decide_eq_true_eq] at h
  exact h.1

namespace WellSized

variable {field : Bitfield}

/-- The bits that are set are those of the pieces that are there. -/
theorem count_eq (h : field.WellSized) : field.count = field.available.length := by
  have hbits : field.count = (List.range (field.bytes.size * 8)).countP field.has := by
    have hcount := foldl_count_eq_countP field.bytes.toList
    rw [Array.foldl_toList, Array.length_toList] at hcount
    exact hcount.trans (congrArg (List.countP · _) (funext h.bitAt_eq_has))
  have hspare : byteCount field.size * 8 =
      field.size + (byteCount field.size * 8 - field.size) := by
    rw [byteCount]
    omega
  have hnone : ((List.range (byteCount field.size * 8 - field.size)).map
      (field.size + ·)).countP field.has = 0 := by
    rw [List.countP_eq_zero]
    intro index hindex
    obtain ⟨k, -, rfl⟩ := List.mem_map.mp hindex
    simp [has_eq]
  rw [hbits, h.size_bytes, hspare, List.range_add, List.countP_append, hnone, Nat.add_zero,
    available, List.countP_eq_length_filter]

theorem isComplete_iff (h : field.WellSized) :
    field.isComplete = true ↔ ∀ index < field.size, field.has index = true := by
  have hall := List.length_filter_eq_length_iff (p := field.has) (l := List.range field.size)
  rw [List.length_range] at hall
  rw [isComplete, beq_iff_eq, h.count_eq, available, hall]
  simp only [List.mem_range]

theorem isEmpty_iff (h : field.WellSized) :
    field.isEmpty = true ↔ ∀ index, field.has index = false := by
  rw [isEmpty, Array.all_eq_true]
  constructor
  · intro hzero index
    rw [← h.bitAt_eq_has, bitAt]
    cases hbyte : field.bytes[index / 8]? with
    | none => rfl
    | some byte =>
      obtain ⟨hplace, rfl⟩ := Array.getElem?_eq_some_iff.mp hbyte
      have hclear : field.bytes[index / 8] = 0 := by simpa using hzero _ hplace
      rw [hclear]
      exact Octet.bit_zero _
  · intro hnone place hplace
    rw [beq_iff_eq]
    apply Octet.ext
    intro k hk
    have hbit := h.bitAt_eq_has (place * 8 + k)
    have hdiv : (place * 8 + k) / 8 = place := by omega
    have hmod : (place * 8 + k) % 8 = k := by omega
    rw [hnone, bitAt, hdiv, hmod, Array.getElem?_eq_getElem hplace] at hbit
    exact hbit.trans (Octet.bit_zero k).symm

/-- The bytes and the number of pieces say all of a bitfield. -/
theorem ofBytes_toBytes (h : field.WellSized) : ofBytes field.toBytes field.size = field := by
  apply eq_of_has (wellSized_ofBytes _ _) h (size_trim _)
  intro index _
  rw [has_ofBytes]
  rfl

end WellSized

/-! ## Bitfields that represent sets -/

/-- The bitfield is well sized, and its pieces are those of the set. -/
structure Represents (field : Bitfield) (s : PieceSet) : Prop where
  wellSized : field.WellSized
  size_eq : field.size = s.size
  has_iff : ∀ piece, field.has piece = true ↔ piece ∈ s.pieces

theorem Origin.represents (origin : Origin) : origin.field.Represents (.ofOrigin origin) := by
  cases origin with
  | new size => exact ⟨wellSized_new size, rfl, fun piece => by simp [field, PieceSet.ofOrigin]⟩
  | full size =>
    exact ⟨wellSized_full size, size_full size, fun piece => by simp [field, PieceSet.ofOrigin]⟩
  | ofBytes bytes size =>
    refine ⟨wellSized_ofBytes bytes size, size_trim _, ?_⟩
    intro piece
    rw [field, has_ofBytes, bitAt_toArray]
    simp [PieceSet.ofOrigin, PieceSet.announced]
  | ofPayload payload =>
    refine ⟨wellSized_ofPayload payload, rfl, ?_⟩
    intro piece
    rw [field, has_ofPayload, bitAt_toArray]
    simp [PieceSet.ofOrigin, PieceSet.announced]

namespace Represents

variable {field : Bitfield} {s : PieceSet}

/-- A change to a bitfield is the change to the set. -/
theorem edit (h : field.Represents s) (change : Edit) :
    (field.edit change).Represents (s.edit change) := by
  cases change with
  | set piece =>
    rw [Bitfield.edit, PieceSet.edit]
    split
    · next hpiece =>
      refine ⟨h.wellSized.set piece, (size_set field piece).trans h.size_eq, ?_⟩
      intro other
      rw [has_set h.wellSized, h.size_eq]
      by_cases hsame : other = piece
      · simp [hsame, hpiece]
      · simp [hsame, h.has_iff]
    · next hpiece =>
      rw [Bitfield.set, h.size_eq, if_neg hpiece]
      exact h
  | clear piece =>
    refine ⟨h.wellSized.clear piece, (size_clear field piece).trans h.size_eq, ?_⟩
    intro other
    change (field.clear piece).has other = true ↔ other ∈ s.pieces.erase piece
    rw [has_clear h.wellSized, Finset.mem_erase, ← h.has_iff, Bool.and_eq_true, decide_eq_true_eq,
      and_comm]
  | resize size =>
    refine ⟨wellSized_resize field size, size_resize field size, ?_⟩
    intro other
    change (field.resize size).has other = true ↔ other ∈ s.pieces.filter (· < size)
    rw [has_resize h.wellSized, Finset.mem_filter, ← h.has_iff, Bool.and_eq_true,
      decide_eq_true_eq, and_comm]

theorem edits (h : field.Represents s) (changes : List Edit) :
    (changes.foldl Bitfield.edit field).Represents (changes.foldl PieceSet.edit s) := by
  induction changes generalizing field s with
  | nil => exact h
  | cons change rest ih => exact ih (h.edit change)

/-- The pieces that are there are those of the set, in ascending order. -/
theorem available_eq (h : field.Represents s) : field.available = s.pieces.sort (· ≤ ·) := by
  have hascending : field.available.Pairwise (· ≤ ·) :=
    (List.pairwise_le_range).sublist List.filter_sublist
  have hnodup : field.available.Nodup := List.nodup_range.sublist List.filter_sublist
  have hpieces : field.available.toFinset = s.pieces := by
    ext piece
    rw [List.mem_toFinset, mem_available, h.has_iff]
  rw [← hpieces]
  exact ((List.toFinset_sort _ hnodup).mpr hascending).symm

theorem count_eq (h : field.Represents s) : field.count = s.pieces.card := by
  rw [h.wellSized.count_eq, h.available_eq, Finset.length_sort]

theorem toList_eq (h : field.Represents s) :
    field.toList = (List.range s.size).map fun piece => decide (piece ∈ s.pieces) := by
  rw [toList, h.size_eq]
  apply List.map_congr_left
  intro piece _
  rw [Bool.eq_iff_iff, h.has_iff, decide_eq_true_eq]

theorem isComplete_iff (h : field.Represents s) :
    field.isComplete = true ↔ ∀ piece < s.size, piece ∈ s.pieces := by
  rw [h.wellSized.isComplete_iff, h.size_eq]
  simp only [h.has_iff]

theorem isEmpty_iff (h : field.Represents s) : field.isEmpty = true ↔ s.pieces = ∅ := by
  rw [h.wellSized.isEmpty_iff, Finset.eq_empty_iff_forall_notMem]
  simp only [← h.has_iff, Bool.not_eq_true]

/-- Bitfields that represent sets are the same if they have the same size and pieces. -/
theorem eq_iff {second : Bitfield} {t : PieceSet} (h : field.Represents s)
    (hsecond : second.Represents t) :
    field = second ↔
      field.size = second.size ∧ ∀ piece, field.has piece = second.has piece := by
  constructor
  · rintro rfl
    exact ⟨rfl, fun _ => rfl⟩
  · rintro ⟨hsize, hhas⟩
    exact eq_of_has h.wellSized hsecond.wellSized hsize fun piece _ => hhas piece

end Represents

/-- However a bitfield was made and changed, it represents the set that was made and
changed alike, it has just enough bytes, and no bit behind the last piece is set.  So its
answers are those of the set, its bytes and its size say all of it, and two bitfields are
the same exactly if they have the same size and the same pieces. -/
theorem represents_of_edits (origin : Origin) (changes : List Edit) :
    let field := changes.foldl edit origin.field
    let s := changes.foldl PieceSet.edit (.ofOrigin origin)
    field.Represents s ∧
      field.count = s.pieces.card ∧
      (field.isComplete = true ↔ ∀ piece < s.size, piece ∈ s.pieces) ∧
      (field.isEmpty = true ↔ s.pieces = ∅) ∧
      field.toList = (List.range s.size).map (fun piece => decide (piece ∈ s.pieces)) ∧
      field.available = s.pieces.sort (· ≤ ·) ∧
      ofBytes field.toBytes field.size = field ∧
      ∀ (origin' : Origin) (changes' : List Edit),
        let second := changes'.foldl edit origin'.field
        field = second ↔
          field.size = second.size ∧ ∀ piece, field.has piece = second.has piece := by
  intro field s
  have h : field.Represents s := origin.represents.edits changes
  exact ⟨h, h.count_eq, h.isComplete_iff, h.isEmpty_iff, h.toList_eq, h.available_eq,
    h.wellSized.ofBytes_toBytes, fun origin' changes' =>
      h.eq_iff (origin'.represents.edits changes')⟩

/-- Ten pieces that are cut to six and then nine again have lost those behind the cut. -/
example :
    ([Edit.set 5, .set 9, .resize 6, .resize 9, .clear 1].foldl edit (.full 10)).available =
      [0, 2, 3, 4, 5] := by decide

end Bitfield
end PeerLink
