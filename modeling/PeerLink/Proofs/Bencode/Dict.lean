import Mathlib.Data.List.Nodup
import PeerLink.Bencode.Dict

/-!
# The index of a dictionary

A dictionary finds its keys through an index.  This module shows that the index
of a dictionary that grew by new keys alone knows exactly the keys of its
entries, so that a reader that asks the index asks the entries.  A dictionary
that is built key by key lists its entries in the order they came, `Dict.Lists`.
-/

namespace PeerLink

theorem Bytes.ofText_injective : Function.Injective Bytes.ofText := by
  intro first second h
  have htext := congrArg Bytes.toText? h
  rw [Bytes.toText?_ofText, Bytes.toText?_ofText] at htext
  exact Option.some.inj htext

namespace Bencode

/-! ## Entries under textual keys -/

namespace Entries

/-- The entry of a textual key, if there is a value. -/
def ofOption (key : String) (value? : Option Value) : Entries :=
  (value?.map fun value => (Bytes.ofText key, value)).toList

theorem mem_ofOption {key : String} {value? : Option Value} {entry : Bytes × Value} :
    entry ∈ ofOption key value? ↔
      ∃ value, value? = some value ∧ entry = (Bytes.ofText key, value) := by
  cases value? with
  | none => simp [ofOption]
  | some value => simp [ofOption]

theorem mem_of_get? {entries : Entries} {key : String} {value : Value}
    (h : entries.get? key = some value) : (Bytes.ofText key, value) ∈ entries := by
  obtain ⟨front, back, rfl, -⟩ := List.lookup_eq_some_iff.mp h
  exact List.mem_append_right front List.mem_cons_self

theorem not_mem_keys_of_get? {entries : Entries} {key : String} (h : entries.get? key = none) :
    Bytes.ofText key ∉ entries.map Prod.fst := by
  intro hmem
  obtain ⟨entry, hentry, hkey⟩ := List.mem_map.mp hmem
  have hne := List.lookup_eq_none_iff.mp h entry hentry
  simp [hkey] at hne

theorem get?_append (front back : Entries) (key : String) :
    (front ++ back).get? key = (front.get? key).or (back.get? key) :=
  List.lookup_append

@[simp]
theorem get?_ofOption (key other : String) (value? : Option Value) :
    (ofOption key value?).get? other = if other = key then value? else none := by
  cases value? with
  | none => simp [ofOption, get?]
  | some value =>
    by_cases h : other = key
    · simp [ofOption, get?, h]
    · have hkey : (Bytes.ofText other == Bytes.ofText key) = false :=
        beq_eq_false_iff_ne.mpr (Bytes.ofText_injective.ne h)
      simp [ofOption, get?, List.lookup_cons, h, hkey]

end Entries

namespace Dict

@[simp]
theorem toList_push (d : Dict) (key : Bytes) (value : Value) :
    (d.push key value).toList = d.toList ++ [(key, value)] := by
  simp [toList, push]

@[simp]
theorem keys_push (d : Dict) (key : Bytes) (value : Value) :
    (d.push key value).keys = d.keys ++ [key] := by
  simp [keys]

theorem wellIndexed_empty : (∅ : Dict).WellIndexed where
  nodup := List.nodup_nil
  index_eq _ := Std.ExtTreeMap.getElem?_empty

/-- The index of a well-indexed dictionary knows exactly the keys. -/
theorem WellIndexed.contains_iff {d : Dict} (h : d.WellIndexed) (key : Bytes) :
    d.contains key = true ↔ key ∈ d.keys := by
  rw [contains, Std.ExtTreeMap.contains_eq_isSome_getElem?, h.index_eq]
  exact List.isSome_idxOf?

/-- Where all keys differ, the key of a later entry is not there yet. -/
theorem not_mem_keys_of_nodup (d : Dict) {key : Bytes} {value : Value} {later : Entries}
    (h : ((d.toList ++ (key, value) :: later).map Prod.fst).Nodup) : key ∉ d.keys := by
  intro hmem
  rw [List.map_append, List.map_cons] at h
  exact (List.nodup_append'.mp h).2.2 hmem List.mem_cons_self

/-- Behind a list without it, a key is found at the end. -/
theorem idxOf?_concat_self {keys : List Bytes} {key : Bytes} (h : key ∉ keys) :
    (keys ++ [key]).idxOf? key = some keys.length := by
  rw [List.idxOf?_eq_some_iff]
  refine ⟨by simp, by simp, ?_⟩
  intro j hj heq
  rw [List.getElem_append_left hj] at heq
  exact h (heq ▸ List.getElem_mem hj)

/-- A key behind a list does not change where the other keys are found. -/
theorem idxOf?_concat_of_ne {keys : List Bytes} {key other : Bytes} (h : key ≠ other) :
    (keys ++ [key]).idxOf? other = keys.idxOf? other := by
  induction keys with
  | nil => simp [List.idxOf?_cons, h]
  | cons k keys ih => rw [List.cons_append, List.idxOf?_cons, List.idxOf?_cons, ih]

/-- Adding a key that is not there keeps the index right. -/
theorem WellIndexed.push {d : Dict} (h : d.WellIndexed) {key : Bytes} (hkey : key ∉ d.keys)
    (value : Value) : (d.push key value).WellIndexed where
  nodup := by
    change (d.push key value).keys.Nodup
    rw [keys_push]
    exact List.nodup_append'.mpr ⟨h.nodup, List.nodup_singleton _, by simpa using hkey⟩
  index_eq := by
    intro other
    change (d.index.insert key d.entries.size)[other]? = (d.push key value).keys.idxOf? other
    have hsize : d.entries.size = d.keys.length := by simp [keys, toList]
    rw [Std.ExtTreeMap.getElem?_insert, keys_push, hsize]
    by_cases heq : key = other
    · subst heq
      rw [if_pos (by simp), idxOf?_concat_self hkey]
    · rw [if_neg (by simpa using heq), idxOf?_concat_of_ne heq]
      exact h.index_eq other

/-! ## Where the entry of a key stands -/

/-- What stands behind other keys is found after them. -/
theorem idxOf?_append (front back : List Bytes) (key : Bytes) :
    (front ++ back).idxOf? key =
      (front.idxOf? key).or ((back.idxOf? key).map (· + front.length)) :=
  List.findIdx?_append

/-- The first entry with a key is the one at the first position of the key. -/
theorem lookup_eq_bind_idxOf? (entries : Entries) (key : Bytes) :
    entries.lookup key =
      ((entries.map Prod.fst).idxOf? key).bind fun position => entries[position]?.map Prod.snd := by
  induction entries with
  | nil => rfl
  | cons entry rest ih =>
    obtain ⟨first, value⟩ := entry
    rw [List.map_cons, List.idxOf?_cons, List.lookup_cons]
    by_cases hkey : first = key
    · simp [hkey]
    · have hne : (key == first) = false := beq_eq_false_iff_ne.mpr (Ne.symm hkey)
      have hne' : ¬ (first == key) = true := by simp [hkey]
      simp only [hne, if_neg hne', ih, Option.bind_map, Function.comp_def,
        List.getElem?_cons_succ]

section Positions

variable {d : Dict} {front back : Entries} {key : Bytes} {old : Value}

/-- A dictionary is looked up as its entries are. -/
theorem WellIndexed.get?_eq (h : d.WellIndexed) (key : Bytes) :
    d.get? key = d.toList.lookup key := by
  rw [get?, h.index_eq, toList, lookup_eq_bind_idxOf?]
  simp only [Array.getElem?_toList]

/-- Where the index of a key points to, there is its entry. -/
theorem WellIndexed.exists_split (h : d.WellIndexed) {position : Nat}
    (hindex : d.index[key]? = some position) :
    ∃ front old back, d.toList = front ++ (key, old) :: back ∧ front.length = position := by
  rw [h.index_eq] at hindex
  obtain ⟨hlt, hkey, -⟩ := List.idxOf?_eq_some_iff.mp hindex
  have hplace : position < d.toList.length := by rwa [List.length_map] at hlt
  have hfst : (d.toList[position]).1 = key := by
    rw [List.getElem_map] at hkey
    exact hkey
  refine ⟨d.toList.take position, (d.toList[position]).2, d.toList.drop (position + 1), ?_,
    List.length_take_of_le (Nat.le_of_lt hplace)⟩
  rw [← hfst, List.getElem_cons_drop, List.take_append_drop]

/-- The keys in front of an entry and behind it are others. -/
theorem WellIndexed.not_mem_of_split (h : d.WellIndexed)
    (hsplit : d.toList = front ++ (key, old) :: back) :
    key ∉ front.map Prod.fst ∧ key ∉ back.map Prod.fst := by
  have hnodup := h.nodup
  rw [← toList, hsplit, List.map_append, List.map_cons, List.nodup_middle] at hnodup
  have hnot := (List.nodup_cons.mp hnodup).1
  rwa [List.mem_append, not_or] at hnot

/-- An entry is indexed at its place. -/
theorem WellIndexed.index_of_split (h : d.WellIndexed)
    (hsplit : d.toList = front ++ (key, old) :: back) : d.index[key]? = some front.length := by
  have hfront : (front.map Prod.fst).idxOf? key = none :=
    List.idxOf?_eq_none_iff.mpr (h.not_mem_of_split hsplit).1
  rw [h.index_eq, ← toList, hsplit, List.map_append, idxOf?_append, hfront, List.map_cons,
    List.idxOf?_cons]
  simp

theorem WellIndexed.index_eq_none_iff (h : d.WellIndexed) :
    d.index[key]? = none ↔ key ∉ d.keys := by
  rw [h.index_eq]
  exact List.idxOf?_eq_none_iff

theorem WellIndexed.get?_of_split (h : d.WellIndexed)
    (hsplit : d.toList = front ++ (key, old) :: back) : d.get? key = some old := by
  rw [get?, h.index_of_split hsplit, Option.bind_some, ← Array.getElem?_toList, ← toList, hsplit,
    List.getElem?_append_right (Nat.le_refl _), Nat.sub_self]
  rfl

theorem WellIndexed.get?_of_not_mem (h : d.WellIndexed) (hkey : key ∉ d.keys) :
    d.get? key = none := by
  rw [get?, h.index_eq_none_iff.mpr hkey]
  rfl

/-! ## Storing and removing in place -/

theorem modify_append_cons {α : Type} (front : List α) (a : α) (back : List α) (f : α → α) :
    (front ++ a :: back).modify front.length f = front ++ f a :: back := by
  induction front with
  | nil => rfl
  | cons first rest ih => exact congrArg (first :: ·) ih

theorem WellIndexed.toList_insert_of_split (h : d.WellIndexed)
    (hsplit : d.toList = front ++ (key, old) :: back) (value : Value) :
    (d.insert key value).toList = front ++ (key, value) :: back := by
  rw [insert, h.index_of_split hsplit, toList]
  dsimp only
  rw [Array.toList_modify, ← toList, hsplit, modify_append_cons]

theorem WellIndexed.toList_erase_of_split (h : d.WellIndexed)
    (hsplit : d.toList = front ++ (key, old) :: back) : (d.erase key).toList = front ++ back := by
  rw [erase, h.index_of_split hsplit, toList]
  dsimp only
  rw [Array.toList_eraseIdxIfInBounds, ← toList, hsplit,
    List.eraseIdx_append_of_length_le (Nat.le_refl _), Nat.sub_self, List.eraseIdx_cons_zero]

theorem WellIndexed.erase_of_not_mem (h : d.WellIndexed) (hkey : key ∉ d.keys) :
    d.erase key = d := by
  rw [erase, h.index_eq_none_iff.mpr hkey]

/-- Of an index, the positions of some keys that all differ are changed once each. -/
theorem getElem?_foldl_modify (entries : Entries) (hkeys : (entries.map Prod.fst).Nodup)
    (index : Std.ExtTreeMap Bytes Nat) (f : Nat → Nat) (key : Bytes) :
    (entries.foldl (fun index e => index.modify e.1 f) index)[key]? =
      if key ∈ entries.map Prod.fst then index[key]?.map f else index[key]? := by
  induction entries generalizing index with
  | nil => rfl
  | cons entry rest ih =>
    obtain ⟨hfirst, hrest⟩ := List.nodup_cons.mp hkeys
    rw [List.foldl_cons, ih hrest, Std.ExtTreeMap.getElem?_modify, List.map_cons]
    by_cases hsame : entry.1 = key
    · subst hsame
      simp [hfirst]
    · have hother : compare entry.1 key ≠ .eq := by simpa using hsame
      simp only [if_neg hother, List.mem_cons, Ne.symm hsame, false_or]

/-- What is left of the index when an entry is removed. -/
theorem WellIndexed.index_erase_of_split (h : d.WellIndexed)
    (hsplit : d.toList = front ++ (key, old) :: back) :
    (d.erase key).index =
      back.foldl (fun index e => index.modify e.1 (· - 1)) (d.index.erase key) := by
  have hleft := h.toList_erase_of_split hsplit
  rw [Dict.erase, h.index_of_split hsplit] at hleft ⊢
  dsimp only [toList] at hleft ⊢
  rw [hleft, List.drop_left]

/-- Removing an entry keeps the index right: all entries behind it move up by one. -/
theorem WellIndexed.erase (h : d.WellIndexed) (key : Bytes) : (d.erase key).WellIndexed := by
  cases hindex : d.index[key]? with
  | none => rwa [Dict.erase, hindex]
  | some position =>
    obtain ⟨front, old, back, hsplit, -⟩ := h.exists_split hindex
    obtain ⟨hfront, hback⟩ := h.not_mem_of_split hsplit
    have hnodup := h.nodup
    rw [← toList, hsplit, List.map_append, List.map_cons, List.nodup_middle] at hnodup
    have hkeys := (List.nodup_cons.mp hnodup).2
    obtain ⟨-, hbackKeys, hdisjoint⟩ := List.nodup_append'.mp hkeys
    have hleft := h.toList_erase_of_split hsplit
    constructor
    · rwa [← toList, hleft, List.map_append]
    · intro other
      have hbefore := h.index_eq other
      rw [← toList, hsplit, List.map_append, List.map_cons, idxOf?_append, List.idxOf?_cons]
        at hbefore
      rw [← toList, hleft, List.map_append, idxOf?_append, h.index_erase_of_split hsplit,
        getElem?_foldl_modify _ hbackKeys, Std.ExtTreeMap.getElem?_erase]
      by_cases hsame : key = other
      · subst hsame
        simp [List.idxOf?_eq_none_iff.mpr hfront, List.idxOf?_eq_none_iff.mpr hback]
      · have hother : compare key other ≠ .eq := by simpa using hsame
        have hne : ¬ (key == other) = true := by simpa using hsame
        dsimp only at hbefore
        rw [if_neg hne] at hbefore
        rw [if_neg hother, hbefore]
        by_cases hbehind : other ∈ back.map Prod.fst
        · have hnotFront : (front.map Prod.fst).idxOf? other = none :=
            List.idxOf?_eq_none_iff.mpr fun hmem => hdisjoint hmem hbehind
          rw [if_pos hbehind, hnotFront]
          cases (back.map Prod.fst).idxOf? other with
          | none => rfl
          | some k => simp
        · rw [if_neg hbehind, List.idxOf?_eq_none_iff.mpr hbehind]
          rfl

end Positions

/-! ## Building a dictionary entry by entry -/

/-- The index is right, and these are the entries. -/
structure Lists (d : Dict) (entries : Entries) : Prop where
  wellIndexed : d.WellIndexed
  toList_eq : d.toList = entries

theorem lists_empty : Dict.empty.Lists [] := ⟨wellIndexed_empty, rfl⟩

theorem Lists.nodup_keys {d : Dict} {entries : Entries} (h : d.Lists entries) :
    (entries.map Prod.fst).Nodup := by
  rw [← h.toList_eq]
  exact h.wellIndexed.nodup

section Building

variable {d : Dict} {front : Entries}

theorem WellIndexed.insert_of_not_mem (h : d.WellIndexed) {key : Bytes} (hkey : key ∉ d.keys)
    (value : Value) : d.insert key value = d.push key value := by
  have hindex : d.index[key]? = none := by
    rw [h.index_eq]
    exact List.idxOf?_eq_none_iff.mpr hkey
  rw [insert, hindex]

/-- Storing another value under a key keeps all keys. -/
theorem keys_modify (entries : Array (Bytes × Value)) (position : Nat) (value : Value) :
    (entries.modify position fun entry => (entry.1, value)).toList.map Prod.fst =
      entries.toList.map Prod.fst := by
  apply List.ext_getElem?
  intro i
  rw [List.getElem?_map, List.getElem?_map, Array.getElem?_toList, Array.getElem?_toList,
    Array.getElem?_modify]
  split
  · cases entries[i]? <;> rfl
  · rfl

theorem WellIndexed.insert (h : d.WellIndexed) (key : Bytes) (value : Value) :
    (d.insert key value).WellIndexed := by
  cases hindex : d.index[key]? with
  | none =>
    have hkey : key ∉ d.keys := by
      rw [h.index_eq] at hindex
      exact List.idxOf?_eq_none_iff.mp hindex
    rw [h.insert_of_not_mem hkey]
    exact h.push hkey value
  | some position =>
    have hkeys := keys_modify d.entries position value
    rw [Dict.insert, hindex]
    constructor
    · rw [hkeys]
      exact h.nodup
    · intro other
      rw [hkeys]
      exact h.index_eq other

theorem Lists.insert (h : d.Lists front) {key : Bytes} (hkey : key ∉ front.map Prod.fst)
    (value : Value) : (d.insert key value).Lists (front ++ [(key, value)]) := by
  have hnew : key ∉ d.keys := by
    rw [keys, h.toList_eq]
    exact hkey
  rw [h.wellIndexed.insert_of_not_mem hnew]
  exact ⟨h.wellIndexed.push hnew value, by rw [toList_push, h.toList_eq]⟩

theorem Lists.insertSome (h : d.Lists front) {key : String}
    (hkey : Bytes.ofText key ∉ front.map Prod.fst) (value? : Option Value) :
    (d.insertSome key value?).Lists (front ++ Entries.ofOption key value?) := by
  cases value? with
  | none =>
    change d.Lists (front ++ [])
    rwa [List.append_nil]
  | some value => exact h.insert hkey value

/-- Entries with new keys that all differ are added as they are. -/
theorem Lists.insertAll (h : d.Lists front) {entries : Entries}
    (hkeys : ((front ++ entries).map Prod.fst).Nodup) :
    (entries.foldl (fun d e => d.insert e.1 e.2) d).Lists (front ++ entries) := by
  induction entries generalizing d front with
  | nil => rwa [List.append_nil]
  | cons entry rest ih =>
    have hkey : entry.1 ∉ front.map Prod.fst := by
      intro hmem
      rw [List.map_append, List.map_cons] at hkeys
      exact (List.nodup_append'.mp hkeys).2.2 hmem List.mem_cons_self
    have hmove : front ++ entry :: rest = front ++ [entry] ++ rest := by simp
    rw [hmove] at hkeys ⊢
    exact ih (h.insert hkey entry.2) hkeys

theorem ofList_lists {entries : Entries} (hkeys : (entries.map Prod.fst).Nodup) :
    (ofList entries).Lists entries :=
  lists_empty.insertAll hkeys

/-- If only entries with new keys are added, entries that all have new keys are added as
they are. -/
theorem Lists.insertNew_of_nodup (h : d.Lists front) {entries : Entries}
    (hkeys : ((front ++ entries).map Prod.fst).Nodup) :
    (entries.foldl (fun d e => if d.contains e.1 then d else d.insert e.1 e.2) d).Lists
      (front ++ entries) := by
  induction entries generalizing d front with
  | nil => rwa [List.append_nil]
  | cons entry rest ih =>
    have hall : ((d.toList ++ (entry.1, entry.2) :: rest).map Prod.fst).Nodup := by
      rwa [h.toList_eq]
    have hkey : entry.1 ∉ d.keys := d.not_mem_keys_of_nodup hall
    have hnew : ¬ d.contains entry.1 = true := fun hmem =>
      hkey ((h.wellIndexed.contains_iff entry.1).mp hmem)
    rw [keys, h.toList_eq] at hkey
    have hmove : front ++ entry :: rest = front ++ [entry] ++ rest := by simp
    rw [hmove] at hkeys ⊢
    rw [List.foldl_cons, if_neg hnew]
    exact ih (h.insert hkey entry.2) hkeys

/-- If only entries with new keys are added, some of the entries are. -/
theorem Lists.insertNew (h : d.Lists front) (entries : Entries) :
    ∃ kept, kept.Sublist entries ∧
      (entries.foldl (fun d e => if d.contains e.1 then d else d.insert e.1 e.2) d).Lists
        (front ++ kept) := by
  induction entries generalizing d front with
  | nil => exact ⟨[], List.nil_sublist _, by rwa [List.append_nil]⟩
  | cons entry rest ih =>
    rw [List.foldl_cons]
    split
    · obtain ⟨kept, hkept, hlists⟩ := ih h
      exact ⟨kept, hkept.cons entry, hlists⟩
    · next hnew =>
      have hkey : entry.1 ∉ front.map Prod.fst := by
        rw [← h.toList_eq]
        exact fun hmem => hnew ((h.wellIndexed.contains_iff entry.1).mpr hmem)
      obtain ⟨kept, hkept, hlists⟩ := ih (h.insert hkey entry.2)
      refine ⟨entry :: kept, hkept.cons_cons entry, ?_⟩
      rwa [List.append_assoc] at hlists

end Building

end Dict
end Bencode
end PeerLink
